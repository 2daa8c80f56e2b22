import SourceAtlas.Proofs.Text.Parts
import SourceAtlas.RepoPath

/-!
# Paths: segments, and references that enter directories

A path is its segments with slashes between them. This module says what following a reference does
in terms of segments:

* **`dirSegments_ofParts`**: a directory made of segments is read back as these segments;
* **`forall_mem_of_follow?`**: the segments that are reached are segments of the directory or
  ordinary ones of the reference;
* **`exists_parts_of_join?`**: whatever reference is followed, the path it leads to is made of
  segments, so a second reference can be followed from there;
* **`join?_ofParts`**: a reference of plain segments, none of them empty, `.` or `..`, is put behind
  the directory.
-/

namespace SourceAtlas.RepoPath

/-- The path with these parts, the outermost first. -/
def ofParts (parts : List (List Char)) : String :=
  String.ofList (['/'].intercalate parts)

/-- Whether a part can stand between slashes and is not passed over. -/
def IsSegment (part : List Char) : Prop :=
  part ≠ [] ∧ '/' ∉ part

/-- Whether a segment enters a directory or names a file. -/
structure IsPlain (part : List Char) : Prop where
  isSegment : IsSegment part
  ne_dot : part ≠ ['.']
  ne_dots : part ≠ ['.', '.']

instance (part : List Char) : Decidable (IsSegment part) :=
  inferInstanceAs (Decidable (part ≠ [] ∧ '/' ∉ part))

theorem isPlain_iff {part : List Char} :
    IsPlain part ↔ IsSegment part ∧ part ≠ ['.'] ∧ part ≠ ['.', '.'] :=
  ⟨fun h => ⟨h.isSegment, h.ne_dot, h.ne_dots⟩, fun h => ⟨h.1, h.2.1, h.2.2⟩⟩

instance (part : List Char) : Decidable (IsPlain part) :=
  decidable_of_iff _ isPlain_iff.symm

/-- Whether a path is the root or made of plain segments. -/
def IsPlainPath (path : String) : Prop :=
  path = "" ∨ ∀ part ∈ segments path.toList, IsPlain part

instance (path : String) : Decidable (IsPlainPath path) :=
  inferInstanceAs (Decidable (path = "" ∨ ∀ part ∈ segments path.toList, IsPlain part))

/-! ## Paths made of segments -/

section Parts

variable {parts more : List (List Char)}

theorem toList_ofParts (parts : List (List Char)) :
    (ofParts parts).toList = ['/'].intercalate parts := by
  unfold ofParts
  rw [String.toList_ofList]

/-- A path is made of its segments. -/
theorem ofParts_segments (path : String) : ofParts (segments path.toList) = path := by
  unfold ofParts segments
  rw [List.intercalate_splitOn, String.ofList_toList]

/-- A plain path is made of plain segments; the root is made of none. -/
theorem IsPlainPath.exists_parts {path : String} (h : IsPlainPath path) :
    ∃ parts, (∀ part ∈ parts, IsPlain part) ∧ path = ofParts parts := by
  rcases h with rfl | hplain
  · exact ⟨[], (fun _ hpart => nomatch hpart), rfl⟩
  · exact ⟨_, hplain, (ofParts_segments path).symm⟩

/-- A single segment is a path. -/
theorem ofParts_singleton (name : String) : ofParts [name.toList] = name := by
  unfold ofParts
  rw [List.intercalate_singleton, String.ofList_toList]

/-- Segments hold no slash. -/
theorem slash_not_mem_of_mem_segments {cs part : List Char} (h : part ∈ segments cs) :
    '/' ∉ part :=
  Chars.not_mem_of_mem_splitOn h

/-- What is put behind a slash makes a path longer. -/
theorem length_lt_append_slash (front rest : String) :
    front.length < (front ++ "/" ++ rest).length := by
  have hslash : "/".length = 1 := by decide
  rw [String.length_append, String.length_append]
  omega

/-- A path with a slash is not the root. -/
theorem append_slash_ne_empty (front rest : String) : front ++ "/" ++ rest ≠ "" := by
  intro hempty
  have hlt := length_lt_append_slash front rest
  rw [hempty] at hlt
  exact Nat.not_lt_zero _ hlt

/-- A slash divides the segments of what is before it from those of what is behind it. -/
theorem segments_append_slash (front rest : String) :
    segments (front ++ "/" ++ rest).toList = segments front.toList ++ segments rest.toList := by
  have hslash : "/".toList = ['/'] := by decide
  unfold segments
  rw [String.toList_append, String.toList_append, hslash, List.append_assoc, List.singleton_append,
    List.splitOn_append_cons_self]

/-- Segments are read back from the path that they make. -/
theorem segments_ofParts (hne : parts ≠ []) (h : ∀ part ∈ parts, '/' ∉ part) :
    segments (ofParts parts).toList = parts := by
  unfold segments
  rw [toList_ofParts, List.splitOn_intercalate '/' h hne]

/-- Paths put one behind the other. -/
theorem ofParts_append (hne : parts ≠ []) (hmore : more ≠ []) :
    ofParts (parts ++ more) = ofParts parts ++ "/" ++ ofParts more := by
  have hslash : "/".toList = ['/'] := by decide
  rw [← String.toList_inj, String.toList_append, String.toList_append, toList_ofParts,
    toList_ofParts, toList_ofParts, Chars.intercalate_append hne hmore, hslash, List.append_assoc,
    List.singleton_append]

/-- Only no segments make the root. -/
theorem ofParts_eq_empty_iff (h : ∀ part ∈ parts, IsSegment part) :
    ofParts parts = "" ↔ parts = [] := by
  refine ⟨fun hempty => ?_, fun hnil => hnil ▸ rfl⟩
  cases parts with
  | nil => rfl
  | cons part parts =>
    have hread : segments (ofParts (part :: parts)).toList = part :: parts :=
      segments_ofParts (List.cons_ne_nil _ _) fun part hpart => (h part hpart).2
    -- the empty text has one segment, and that is empty
    rw [hempty] at hread
    obtain ⟨rfl, -⟩ := List.cons.inj hread
    exact absurd rfl (h [] List.mem_cons_self).1

/-- A path made of segments does not start with a slash. -/
theorem trimStartWhile_ofParts (h : ∀ part ∈ parts, IsSegment part) :
    Text.trimStartWhile (· == '/') (ofParts parts) = ofParts parts := by
  cases parts with
  | nil => rfl
  | cons part parts =>
    obtain ⟨hne, hslash⟩ := h part List.mem_cons_self
    obtain ⟨c, cs, hchars, hmem⟩ := Chars.exists_head_intercalate '/' hne parts
    have hc : c ≠ '/' := fun heq => hslash (heq ▸ hmem)
    unfold Text.trimStartWhile Text.onChars
    rw [toList_ofParts, hchars, List.dropWhile_cons_of_neg (by simpa using hc), ← hchars]
    rfl

/-- A directory made of segments is read back as these segments, the innermost first. -/
theorem dirSegments_ofParts (h : ∀ part ∈ parts, IsSegment part) :
    dirSegments (ofParts parts).toList = parts.reverse := by
  unfold dirSegments
  by_cases hne : parts = []
  · subst hne
    rfl
  · rw [segments_ofParts hne fun part hpart => (h part hpart).2, List.filter_eq_self.mpr]
    intro part hpart
    simpa using (h part hpart).1

end Parts

/-! ## Following a reference

One step of a reference does one of three things, by the kind of its segment. All that follows
goes through the three equations for `step?` and never opens it. -/

/-- Whether a segment enters a directory, so that it neither stays nor leaves one. -/
def IsOrdinary (segment : List Char) : Prop :=
  segment ≠ [] ∧ segment ≠ ['.'] ∧ segment ≠ ['.', '.']

instance (segment : List Char) : Decidable (IsOrdinary segment) :=
  inferInstanceAs (Decidable (segment ≠ [] ∧ segment ≠ ['.'] ∧ segment ≠ ['.', '.']))

/-- Plain segments are ordinary. -/
theorem IsPlain.isOrdinary {part : List Char} (h : IsPlain part) : IsOrdinary part :=
  ⟨h.isSegment.1, h.ne_dot, h.ne_dots⟩

/-- Every segment stays, leaves a directory or enters one. -/
theorem segment_cases (segment : List Char) :
    (segment = [] ∨ segment = ['.']) ∨ segment = ['.', '.'] ∨ IsOrdinary segment := by
  unfold IsOrdinary
  tauto

section Step

variable {dir : List (List Char)} {segment : List Char}

/-- An empty segment and a dot stay. -/
theorem step?_of_stays (h : segment = [] ∨ segment = ['.']) : step? dir segment = some dir := by
  unfold step?
  rw [if_pos h]

/-- Two dots leave the innermost directory, if there is one. -/
theorem step?_dots (dir : List (List Char)) : step? dir ['.', '.'] = dir.tail? := by
  cases dir <;> rfl

/-- Any other segment is entered. -/
theorem step?_of_isOrdinary (h : IsOrdinary segment) :
    step? dir segment = some (segment :: dir) := by
  unfold step?
  rw [if_neg (not_or.mpr ⟨h.1, h.2.1⟩), if_neg h.2.2]

end Step

/-- One segment is followed, and then the rest. -/
theorem follow?_cons (dir : List (List Char)) (segment : List Char) (rest : List (List Char)) :
    follow? dir (segment :: rest) = (step? dir segment).bind (follow? · rest) :=
  List.foldlM_cons

/-- A reference is followed part by part. -/
theorem follow?_append (dir reference more : List (List Char)) :
    follow? dir (reference ++ more) = (follow? dir reference).bind (follow? · more) :=
  List.foldlM_append

/-- What holds of the segments of the directory and of the ordinary ones of the reference holds of
those that are reached. The induction is on the reference, one step after another. -/
theorem forall_mem_of_follow? {P : List Char → Prop} {dir reference found : List (List Char)}
    (hdir : ∀ part ∈ dir, P part) (hreference : ∀ part ∈ reference, IsOrdinary part → P part)
    (h : follow? dir reference = some found) : ∀ part ∈ found, P part := by
  induction reference generalizing dir with
  | nil =>
    cases h
    exact hdir
  | cons segment rest ih =>
    have hrest : ∀ part ∈ rest, IsOrdinary part → P part := fun part hpart =>
      hreference part (List.mem_cons_of_mem _ hpart)
    rw [follow?_cons] at h
    rcases segment_cases segment with hstays | rfl | hordinary
    · rw [step?_of_stays hstays] at h
      exact ih hdir hrest h
    · rw [step?_dots] at h
      -- above the root nothing is reached
      cases dir with
      | nil => cases h
      | cons inner outer =>
        exact ih (fun part hpart => hdir part (List.mem_cons_of_mem _ hpart)) hrest h
    · rw [step?_of_isOrdinary hordinary] at h
      have hsegment : P segment := hreference segment List.mem_cons_self hordinary
      exact ih (List.forall_mem_cons.mpr ⟨hsegment, hdir⟩) hrest h

/-- The segments of a directory are not empty. -/
theorem isSegment_of_mem_dirSegments {dir part : List Char} (h : part ∈ dirSegments dir) :
    IsSegment part := by
  obtain ⟨hmem, hne⟩ := List.mem_filter.mp (List.mem_reverse.mp h)
  exact ⟨by simpa using hne, slash_not_mem_of_mem_segments hmem⟩

/-- What is reached is made of segments of the directory and of the reference. -/
theorem isSegment_of_follow? {dir reference dir' : List (List Char)}
    (hdir : ∀ part ∈ dir, IsSegment part) (hreference : ∀ part ∈ reference, '/' ∉ part)
    (h : follow? dir reference = some dir') : ∀ part ∈ dir', IsSegment part :=
  forall_mem_of_follow? hdir (fun part hpart hordinary => ⟨hordinary.1, hreference part hpart⟩) h

/-- Plain segments are entered one after another. -/
theorem follow?_of_plain (dir : List (List Char)) {reference : List (List Char)}
    (h : ∀ part ∈ reference, IsPlain part) :
    follow? dir reference = some (reference.reverse ++ dir) := by
  induction reference generalizing dir with
  | nil => rfl
  | cons segment rest ih =>
    have hrest : ∀ part ∈ rest, IsPlain part := fun part hpart =>
      h part (List.mem_cons_of_mem _ hpart)
    rw [follow?_cons, step?_of_isOrdinary (h segment List.mem_cons_self).isOrdinary,
      Option.bind_some, ih (segment :: dir) hrest, List.reverse_cons, List.append_assoc,
      List.singleton_append]

/-- Whatever reference is followed, it leads to a path made of segments. -/
theorem exists_parts_of_join? {dir reference path : String} (h : join? dir reference = some path) :
    ∃ parts, (∀ part ∈ parts, IsSegment part) ∧ path = ofParts parts := by
  unfold join? joinChars? at h
  obtain ⟨cs, hcs, rfl⟩ := Option.map_eq_some_iff.mp h
  obtain ⟨found, hfound, rfl⟩ := Option.map_eq_some_iff.mp hcs
  refine ⟨found.reverse, fun part hpart => ?_, rfl⟩
  exact isSegment_of_follow? (fun _ => isSegment_of_mem_dirSegments)
    (fun _ => slash_not_mem_of_mem_segments) hfound part (List.mem_reverse.mp hpart)

/-- **A reference of plain segments is put behind the directory.** -/
theorem join?_ofParts {dir reference : List (List Char)} (hdir : ∀ part ∈ dir, IsSegment part)
    (hreference : ∀ part ∈ reference, IsPlain part) :
    join? (ofParts dir) (ofParts reference) = some (ofParts (dir ++ reference)) := by
  have hfollow : follow? dir.reverse (segments (ofParts reference).toList)
      = some (dir ++ reference).reverse := by
    by_cases hne : reference = []
    · -- the empty reference is one empty segment, which stays
      subst hne
      rw [List.append_nil]
      rfl
    · rw [segments_ofParts hne fun part hpart => (hreference part hpart).isSegment.2,
        follow?_of_plain _ hreference, List.reverse_append]
  unfold join? joinChars?
  rw [dirSegments_ofParts hdir, hfollow, Option.map_some, Option.map_some, ofSegments,
    List.reverse_reverse]
  rfl

/-- A name is put behind a directory, and stands alone at the root. -/
theorem join?_name {dir : List (List Char)} (hdir : ∀ part ∈ dir, IsSegment part) {name : String}
    (hname : IsPlain name.toList) : join? (ofParts dir) name =
      some (if ofParts dir = "" then name else ofParts dir ++ "/" ++ name) := by
  have hjoin :
      join? (ofParts dir) (ofParts [name.toList]) = some (ofParts (dir ++ [name.toList])) :=
    join?_ofParts hdir fun part hpart => List.mem_singleton.mp hpart ▸ hname
  rw [ofParts_singleton] at hjoin
  rw [hjoin]
  -- at the root there is no directory to put a slash behind
  by_cases hroot : dir = []
  · rw [if_pos ((ofParts_eq_empty_iff hdir).mpr hroot), hroot, List.nil_append, ofParts_singleton]
  · rw [if_neg (mt (ofParts_eq_empty_iff hdir).mp hroot),
      ofParts_append hroot (List.cons_ne_nil _ _), ofParts_singleton]

end SourceAtlas.RepoPath
