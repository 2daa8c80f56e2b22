import SourceAtlas.Proofs.RepoPath.Segments

/-!
# Paths: references in stages, and references that leave the root

A reference is followed with a stack of directories: a segment `..` takes the innermost directory
off, an ordinary segment puts one on, and the reference fails where there is nothing to take off.
This module tells what comes of it without the stack:

* **`follow?_eq_none_iff`**: a reference fails exactly if it leaves the root (`LeavesRoot`), that
  is, if some beginning of it has more `..` than there are directories and ordinary segments
  together;
* **`join?_append_slash`**: a reference can be followed in stages, the second one from the path that
  the first one leads to, although that path is written out and divided again in between;
* **`isPlainPath_of_join?`**: from a directory without `.` and `..`, no path with such a segment or
  with an empty one is reached.
-/

namespace SourceAtlas.RepoPath

/-! ## Leaving the root

The stack is not there in the statement, only its height at the start. What the height is after
a beginning of the reference is counted from the segments of that beginning. -/

/--
Whether a reference leaves the root on its way from a directory `depth` levels below it: some
beginning of the reference leaves more directories than there are at the start and than it enters.
-/
def LeavesRoot (depth : Nat) (reference : List (List Char)) : Prop :=
  ∃ before, before <+: reference ∧
    depth + before.countP (fun segment => IsOrdinary segment) < before.count ['.', '.']

section LeavesRoot

variable {depth : Nat} {segment : List Char} {rest : List (List Char)}

theorem not_leavesRoot_nil (depth : Nat) : ¬ LeavesRoot depth [] := by
  rintro ⟨before, hbefore, hcount⟩
  rw [List.prefix_nil.mp hbefore] at hcount
  exact Nat.not_lt_zero _ hcount

/-- The beginning that leaves the root has a first segment. -/
theorem leavesRoot_cons_iff : LeavesRoot depth (segment :: rest) ↔ ∃ before, before <+: rest ∧
    depth + (segment :: before).countP (fun segment => IsOrdinary segment)
      < (segment :: before).count ['.', '.'] := by
  constructor
  · rintro ⟨before, hbefore, hcount⟩
    -- an empty beginning leaves nothing
    rcases List.prefix_cons_iff.mp hbefore with rfl | ⟨tail, rfl, htail⟩
    · exact absurd hcount (Nat.not_lt_zero _)
    · exact ⟨tail, htail, hcount⟩
  · rintro ⟨tail, htail, hcount⟩
    exact ⟨segment :: tail, List.cons_prefix_cons.mpr ⟨rfl, htail⟩, hcount⟩

theorem leavesRoot_cons_of_stays (h : segment = [] ∨ segment = ['.']) :
    LeavesRoot depth (segment :: rest) ↔ LeavesRoot depth rest := by
  have hordinary : ¬ IsOrdinary segment := fun ho => h.elim ho.1 ho.2.1
  have hdots : segment ≠ ['.', '.'] := by
    rcases h with rfl | rfl <;> decide
  rw [leavesRoot_cons_iff]
  simp only [LeavesRoot, List.countP_cons, List.count_cons, hordinary, hdots, decide_false,
    beq_iff_eq, if_false, Bool.false_eq_true, Nat.add_zero]

/-- At the root the segment `..` is one too many by itself. -/
theorem leavesRoot_zero_cons_dots : LeavesRoot 0 (['.', '.'] :: rest) :=
  leavesRoot_cons_iff.mpr ⟨[], List.nil_prefix, by decide⟩

theorem leavesRoot_succ_cons_dots :
    LeavesRoot (depth + 1) (['.', '.'] :: rest) ↔ LeavesRoot depth rest := by
  have hordinary : ¬ IsOrdinary ['.', '.'] := by decide
  rw [leavesRoot_cons_iff]
  refine exists_congr fun before => and_congr_right fun _ => ?_
  -- one level less at the start, one `..` less to come
  rw [List.countP_cons_of_neg (by simpa using hordinary), List.count_cons_self]
  omega

theorem leavesRoot_cons_of_isOrdinary (h : IsOrdinary segment) :
    LeavesRoot depth (segment :: rest) ↔ LeavesRoot (depth + 1) rest := by
  rw [leavesRoot_cons_iff]
  refine exists_congr fun before => and_congr_right fun _ => ?_
  rw [List.countP_cons_of_pos (by simpa using h), List.count_cons_of_ne h.2.2]
  omega

end LeavesRoot

/-- **A reference fails exactly if it leaves the root.** The induction is on the reference, with the
directory general: after a step the rest is followed from a directory one level higher or lower. -/
theorem follow?_eq_none_iff (dir reference : List (List Char)) :
    follow? dir reference = none ↔ LeavesRoot dir.length reference := by
  induction reference generalizing dir with
  | nil => exact iff_of_false (fun h => nomatch h) (not_leavesRoot_nil _)
  | cons segment rest ih =>
    rw [follow?_cons]
    -- a segment that stays, `..`, or a name
    rcases segment_cases segment with hstays | rfl | hordinary
    · rw [step?_of_stays hstays, leavesRoot_cons_of_stays hstays]
      exact ih dir
    · rw [step?_dots]
      cases dir with
      | nil => exact iff_of_true rfl leavesRoot_zero_cons_dots
      | cons inner outer =>
        rw [List.length_cons, leavesRoot_succ_cons_dots]
        exact ih outer
    · rw [step?_of_isOrdinary hordinary, leavesRoot_cons_of_isOrdinary hordinary]
      exact ih (segment :: dir)

/-! ## Following a reference in stages -/

/-- A path that is written out of segments is divided into the same segments again. The root has
none, although its text has an empty one. -/
theorem dirSegments_ofSegments {dir : List (List Char)} (h : ∀ part ∈ dir, IsSegment part) :
    dirSegments (ofSegments dir) = dir := by
  have hread : dirSegments (ofParts dir.reverse).toList = dir.reverse.reverse :=
    dirSegments_ofParts fun part hpart => h part (List.mem_reverse.mp hpart)
  rw [toList_ofParts, List.reverse_reverse] at hread
  exact hread

/-- **A reference can be followed in stages.** -/
theorem join?_append_slash (dir reference more : String) :
    join? dir (reference ++ "/" ++ more) = (join? dir reference).bind (join? · more) := by
  unfold join? joinChars?
  rw [segments_append_slash, follow?_append]
  cases hfirst : follow? (dirSegments dir.toList) (segments reference.toList) with
  | none => rfl
  | some found =>
    -- what the first stage leads to is made of segments, so nothing is lost in its text
    have hfound : ∀ part ∈ found, IsSegment part :=
      isSegment_of_follow? (fun _ => isSegment_of_mem_dirSegments)
        (fun _ => slash_not_mem_of_mem_segments) hfirst
    show Option.map String.ofList (Option.map ofSegments (follow? found (segments more.toList))) = _
    rw [Option.map_some, Option.map_some, Option.bind_some, String.toList_ofList,
      dirSegments_ofSegments hfound]

/-! ## Plain segments -/

theorem isPlainPath_ofParts {parts : List (List Char)} (h : ∀ part ∈ parts, IsPlain part) :
    IsPlainPath (ofParts parts) := by
  -- without parts the path is the root
  by_cases hne : parts = []
  · exact Or.inl (by rw [hne]; rfl)
  · refine Or.inr ?_
    rwa [segments_ofParts hne fun part hpart => (h part hpart).isSegment.2]

/-- **From a directory without `.` and `..` only plain paths are reached.** -/
theorem isPlainPath_of_join? {dir reference path : String}
    (hdir : ∀ part ∈ segments dir.toList, part ≠ ['.'] ∧ part ≠ ['.', '.'])
    (h : join? dir reference = some path) : IsPlainPath path := by
  unfold join? joinChars? at h
  obtain ⟨cs, hcs, rfl⟩ := Option.map_eq_some_iff.mp h
  obtain ⟨found, hfound, rfl⟩ := Option.map_eq_some_iff.mp hcs
  have hplain : ∀ part ∈ dirSegments dir.toList, IsPlain part := by
    intro part hpart
    obtain ⟨hmem, -⟩ := List.mem_filter.mp (List.mem_reverse.mp hpart)
    exact ⟨isSegment_of_mem_dirSegments hpart, (hdir part hmem).1, (hdir part hmem).2⟩
  -- a name of the reference is neither a dot nor two, or it would not be put on the stack
  have hreached : ∀ part ∈ found, IsPlain part :=
    forall_mem_of_follow? hplain (fun part hpart hordinary =>
      ⟨⟨hordinary.1, slash_not_mem_of_mem_segments hpart⟩, hordinary.2.1, hordinary.2.2⟩) hfound
  exact isPlainPath_ofParts fun part hpart => hreached part (List.mem_reverse.mp hpart)

/-! ## References between paths -/

theorem length_dirSegments (dir : List Char) :
    (dirSegments dir).length = (segments dir).countP (!·.isEmpty) := by
  unfold dirSegments
  rw [List.length_reverse, List.countP_eq_length_filter]

theorem join?_eq_none_iff (dir reference : String) : join? dir reference = none ↔
    LeavesRoot ((segments dir.toList).countP (!·.isEmpty)) (segments reference.toList) := by
  unfold join? joinChars?
  rw [Option.map_eq_none_iff, Option.map_eq_none_iff, follow?_eq_none_iff, length_dirSegments]

/--
Joining composes, fails exactly if the reference leaves the root, and keeps paths plain: a reference
in two stages leads where the whole leads; there is no path exactly if some beginning of the
segments of the reference has more `..` than the directory has segments that are not empty and the
beginning has ordinary ones; and from a directory without `.` and `..` every path that is reached is
the root or made of plain segments.
-/
theorem join?_composes (dir reference : String) :
    (∀ more, join? dir (reference ++ "/" ++ more) = (join? dir reference).bind (join? · more)) ∧
      (join? dir reference = none ↔
        LeavesRoot ((segments dir.toList).countP (!·.isEmpty)) (segments reference.toList)) ∧
      ((∀ part ∈ segments dir.toList, part ≠ ['.'] ∧ part ≠ ['.', '.']) →
        ∀ path, join? dir reference = some path → IsPlainPath path) :=
  ⟨join?_append_slash dir reference, join?_eq_none_iff dir reference,
    fun hdir _ hjoin => isPlainPath_of_join? hdir hjoin⟩

/-- A reference that goes up to the root and down again, with empty and dot segments on the way, and
one that goes up once more. -/
theorem join?_composes_throughRoot :
    (∀ part ∈ segments "src//app".toList, part ≠ ['.'] ∧ part ≠ ['.', '.']) ∧
      join? "src//app" ".././..//lib" = some "lib" ∧ IsPlainPath "lib" ∧
      join? "src//app" "../x/../../.." = none ∧ LeavesRoot 2 (segments "../x/../../..".toList) := by
  have hdir : ∀ part ∈ segments "src//app".toList, part ≠ ['.'] ∧ part ≠ ['.', '.'] := by
    decide +kernel
  have hjoin : join? "src//app" ".././..//lib" = some "lib" := by decide +kernel
  have hnone : join? "src//app" "../x/../../.." = none := by decide +kernel
  have hdepth : (segments "src//app".toList).countP (!·.isEmpty) = 2 := by decide +kernel
  have hleaves := (join?_composes "src//app" "../x/../../..").2.1.mp hnone
  rw [hdepth] at hleaves
  exact ⟨hdir, hjoin, (join?_composes "src//app" ".././..//lib").2.2 hdir "lib" hjoin, hnone,
    hleaves⟩

end SourceAtlas.RepoPath
