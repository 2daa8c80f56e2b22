import SourceAtlas.Modules.Java
import SourceAtlas.Proofs.Language
import SourceAtlas.Proofs.RepoPath.Segments

/-!
# Java packages: what is taken for a source root

The package of a file is inferred from the part of its directory below a source root. The root is
looked for as a text, so the name of any directory that ends in `src` can start one, and a root
counts only where something stands below it. `inferred_below_root_iff` says exactly when the
inferred package is the part below a root that stands there as segments of its own.

* **From text to segments.** The search goes from one segment to the next, since what is searched
  for has a slash in it: `splitFirst?_segment` is one step, and `partsBelow?` the whole search
  (`splitFirst?_closed`).
* **The first place.** A root is hidden by an earlier place that reads like one
  (`partsBelow?_append_of_shows`), and by nothing else (`partsBelow?_append`).
-/

namespace SourceAtlas

/-! ## A search that goes over slashes -/

namespace Chars

section

variable {first part tail text mark : List Char}

/-- What is left behind a segment and its slash. -/
theorem stripPrefix?_segment (hfirst : '/' ∉ first) (hpart : '/' ∉ part) :
    stripPrefix? (first ++ '/' :: tail) (part ++ '/' :: text)
      = if first = part then stripPrefix? tail text else none := by
  unfold stripPrefix?
  induction first generalizing part with
  | nil =>
    cases part with
    | nil => rfl
    | cons c part =>
      -- one of the two segments ends before the other, and its slash is no part of that
      have hc : '/' ≠ c := fun heq => hpart (heq ▸ List.mem_cons_self)
      simp [List.isPrefixOf?, hc]
  | cons d first ih =>
    have hd : d ≠ '/' := fun heq => hfirst (heq ▸ List.mem_cons_self)
    cases part with
    | nil => simp [List.isPrefixOf?, hd]
    | cons c part =>
      rw [List.mem_cons, not_or] at hfirst hpart
      have hrest := ih hfirst.2 hpart.2
      by_cases hdc : d = c
      · simp [List.isPrefixOf?, hdc, hrest]
      · simp [List.isPrefixOf?, hdc]

/-- A text with a slash is not found within a segment. -/
theorem splitFirst?_eq_none_of_not_mem (hmark : '/' ∈ mark) (htext : '/' ∉ text) :
    splitFirst? mark text = none := by
  induction text with
  | nil =>
    cases mark with
    | nil => cases hmark
    | cons c mark => rfl
  | cons c text ih =>
    have hstrip : stripPrefix? mark (c :: text) = none := by
      rw [Option.eq_none_iff_forall_ne_some]
      intro rest hrest
      rw [stripPrefix?, List.isPrefixOf?_eq_some_iff_append_eq] at hrest
      rw [← hrest] at htext
      exact htext (List.mem_append_left _ hmark)
    rw [splitFirst?, hstrip, ih fun hmem => htext (List.mem_cons_of_mem _ hmem)]
    rfl

/-- Within one segment there is a single place where a text with a slash can start: where the
segment ends in what stands before the slash. -/
theorem splitFirst?_segment (hfirst : '/' ∉ first) (hpart : '/' ∉ part) :
    (splitFirst? (first ++ '/' :: tail) (part ++ '/' :: text)).map Prod.snd
      = (if first <:+ part then stripPrefix? tail text else none).or
          ((splitFirst? (first ++ '/' :: tail) text).map Prod.snd) := by
  induction part with
  | nil =>
    have hstrip : stripPrefix? (first ++ '/' :: tail) ('/' :: text)
        = if first = [] then stripPrefix? tail text else none :=
      stripPrefix?_segment hfirst List.not_mem_nil
    rw [List.nil_append, splitFirst?, hstrip]
    simp only [List.suffix_nil]
    cases (if first = [] then stripPrefix? tail text else none) with
    | none => simp [Option.map_map, Function.comp_def]
    | some rest => rfl
  | cons c part ih =>
    have hrest := ih fun hmem => hpart (List.mem_cons_of_mem _ hmem)
    have hstrip : stripPrefix? (first ++ '/' :: tail) (c :: (part ++ '/' :: text))
        = if first = c :: part then stripPrefix? tail text else none :=
      stripPrefix?_segment hfirst hpart
    rw [List.cons_append]
    rw [splitFirst?, hstrip]
    by_cases hwhole : first = c :: part
    · -- the segment as a whole, so that no part of it comes in question
      have hshort : ¬ first <:+ part := fun h => by
        have hle := h.length_le
        rw [hwhole, List.length_cons] at hle
        omega
      rw [if_neg hshort, Option.none_or] at hrest
      rw [if_pos hwhole, if_pos (hwhole ▸ List.suffix_rfl)]
      cases stripPrefix? tail text with
      | none => simpa [Option.map_map, Function.comp_def] using hrest
      | some rest => rfl
    · rw [if_neg hwhole]
      simpa [Option.map_map, Function.comp_def, List.suffix_cons_iff, hwhole] using hrest

end

end Chars

namespace JavaPackage

open RepoPath (ofParts)

/-! ## Source roots as segments -/

def srcDir : List Char := "src".toList
def mainDir : List Char := "main".toList
def testDir : List Char := "test".toList
def javaDir : List Char := "java".toList
def kotlinDir : List Char := "kotlin".toList

/-- The segments of each source root behind `src`. -/
def roots : List (List (List Char)) :=
  [[mainDir, javaDir], [testDir, javaDir], [mainDir, kotlinDir], []]

/-- The package with these parts. -/
def dotted (parts : List (List Char)) : String :=
  String.ofList (['.'].intercalate parts)

/-- Whether some segment ends in `src`, with these others behind it. -/
def ShowsRoot (others parts : List (List Char)) : Prop :=
  ∃ name, (name ++ srcDir) :: others <:+: parts

/-- The parts behind some others, if there are any. -/
def partsBehind? (others parts : List (List Char)) : Option (List (List Char)) :=
  (others.isPrefixOf? parts).filter (!·.isEmpty)

/-- The parts behind the first place that shows a root, if there are any. -/
def partsBelow? (others : List (List Char)) : List (List Char) → Option (List (List Char))
  | [] => none
  | part :: parts =>
    (if srcDir <:+ part then partsBehind? others parts else none).or (partsBelow? others parts)

/-- The parts of a directory below one of the source roots. -/
def partsUnder? (dir others : List (List Char)) : Option (List (List Char)) :=
  if dir = srcDir :: others then some [] else partsBelow? others dir

/-- The parts of the package that is inferred from a directory. -/
def packageParts (dir : List (List Char)) : List (List Char) :=
  (roots.findSome? (partsUnder? dir)).getD dir

section

variable {others parts rest : List (List Char)} {part : List Char}

/-- Something has to stand behind the others. -/
theorem partsBehind?_eq_some_iff :
    partsBehind? others parts = some rest ↔ parts = others ++ rest ∧ rest ≠ [] := by
  rw [partsBehind?, Option.filter_eq_some_iff, List.isPrefixOf?_eq_some_iff_append_eq,
    eq_comm (a := parts)]
  simp

/-- Nothing is shown by no segments. -/
theorem showsRoot_nil : ¬ ShowsRoot others [] := by
  rintro ⟨name, hinside⟩
  cases List.infix_nil.mp hinside

/-- A root is shown at the first segment or further on. -/
theorem showsRoot_cons :
    ShowsRoot others (part :: parts) ↔
      (srcDir <:+ part ∧ others <+: parts) ∨ ShowsRoot others parts := by
  constructor
  · rintro ⟨name, hinside⟩
    rcases List.infix_cons_iff.mp hinside with hpre | hinside
    · obtain ⟨rfl, hothers⟩ := List.cons_prefix_cons.mp hpre
      exact .inl ⟨List.suffix_append _ _, hothers⟩
    · exact .inr ⟨name, hinside⟩
  · rintro (⟨⟨name, rfl⟩, hothers⟩ | ⟨name, hinside⟩)
    · exact ⟨name, (List.cons_prefix_cons.mpr ⟨rfl, hothers⟩).isInfix⟩
    · exact ⟨name, List.infix_cons hinside⟩

instance decidableShowsRoot (others : List (List Char)) : DecidablePred (ShowsRoot others)
  | [] => isFalse showsRoot_nil
  | _ :: parts =>
    have := decidableShowsRoot others parts
    decidable_of_iff _ showsRoot_cons.symm

/-- Every root is one behind `src` alone, too. -/
theorem ShowsRoot.src (h : ShowsRoot others parts) : ShowsRoot [] parts := by
  obtain ⟨name, hinside⟩ := h
  exact ⟨name, (List.prefix_append [name ++ srcDir] others).isInfix.trans hinside⟩

/-! ## From text to segments -/

/-- The text of segments, each of them with a slash behind it. -/
def closed (parts : List (List Char)) : List Char :=
  parts.flatMap (· ++ ['/'])

/-- One segment with its slash. -/
theorem closed_cons (part : List Char) (parts : List (List Char)) :
    closed (part :: parts) = part ++ '/' :: closed parts := by
  simp [closed]

/-- It is the text of the segments and one more slash. -/
theorem closed_eq (part : List Char) (parts : List (List Char)) :
    closed (part :: parts) = ['/'].intercalate (part :: parts) ++ ['/'] := by
  induction parts generalizing part with
  | nil => simp [closed]
  | cons next parts ih =>
    rw [closed_cons, ih, List.intercalate_cons_of_ne_nil (List.cons_ne_nil _ _)]
    simp

/-- The first of several segments has a slash behind it. -/
theorem intercalate_segment (part : List Char) {parts : List (List Char)} (hne : parts ≠ []) :
    ['/'].intercalate (part :: parts) = part ++ '/' :: ['/'].intercalate parts := by
  rw [List.intercalate_cons_of_ne_nil hne, List.append_assoc, List.singleton_append]

/-- The segments that a text starts with are taken off one after another. -/
theorem stripPrefix?_closed (hothers : ∀ part ∈ others, '/' ∉ part)
    (hparts : ∀ part ∈ parts, '/' ∉ part) (hne : parts ≠ []) :
    Chars.stripPrefix? (closed others) (['/'].intercalate parts)
      = (partsBehind? others parts).map ['/'].intercalate := by
  induction others generalizing parts with
  | nil =>
    have hbehind : partsBehind? [] parts = some parts := partsBehind?_eq_some_iff.mpr ⟨rfl, hne⟩
    rw [hbehind]
    rfl
  | cons first others ih =>
    rw [List.forall_mem_cons] at hothers
    obtain ⟨part, parts, rfl⟩ := List.exists_cons_of_ne_nil hne
    rw [List.forall_mem_cons] at hparts
    by_cases hlast : parts = []
    · -- nothing stands behind the last segment, not even a slash
      subst hlast
      have hbehind : partsBehind? (first :: others) [part] = none := by
        rw [Option.eq_none_iff_forall_ne_some]
        intro rest hrest
        obtain ⟨heq, hrest⟩ := partsBehind?_eq_some_iff.mp hrest
        obtain ⟨-, hnil⟩ := List.cons.inj heq
        exact hrest (List.append_eq_nil_iff.mp hnil.symm).2
      rw [hbehind, Option.map_none, List.intercalate_singleton, Chars.stripPrefix?,
        Option.eq_none_iff_forall_ne_some]
      intro rest hrest
      rw [List.isPrefixOf?_eq_some_iff_append_eq, closed_cons] at hrest
      apply hparts.1
      rw [← hrest]
      simp
    -- the segments agree or not, and the search goes on behind both slashes
    · have hbehind : partsBehind? (first :: others) (part :: parts)
          = if first = part then partsBehind? others parts else none := by
        simp only [partsBehind?, List.isPrefixOf?, beq_iff_eq]
        split <;> rfl
      rw [closed_cons, intercalate_segment part hlast,
        Chars.stripPrefix?_segment hothers.1 hparts.1, hbehind, ih hothers.2 hparts.2 hlast]
      split <;> rfl

/-- The name `src` is one segment. -/
theorem slash_not_mem_srcDir : '/' ∉ srcDir := by decide

/-- **The search for a root goes over the segments.** By induction on the segments; the last one has
no slash behind it, so no root ends there. -/
theorem splitFirst?_closed (hothers : ∀ part ∈ others, '/' ∉ part)
    (hparts : ∀ part ∈ parts, '/' ∉ part) :
    (Chars.splitFirst? (closed (srcDir :: others)) (['/'].intercalate parts)).map Prod.snd
      = (partsBelow? others parts).map ['/'].intercalate := by
  rw [closed_cons]
  induction parts with
  | nil => rfl
  | cons part parts ih =>
    rw [List.forall_mem_cons] at hparts
    by_cases hlast : parts = []
    · subst hlast
      have hbehind : partsBehind? others [] = none := by
        rw [Option.eq_none_iff_forall_ne_some]
        intro rest hrest
        obtain ⟨heq, hrest⟩ := partsBehind?_eq_some_iff.mp hrest
        exact hrest (List.append_eq_nil_iff.mp heq.symm).2
      have hslash : '/' ∈ srcDir ++ '/' :: closed others := by simp
      rw [List.intercalate_singleton, Chars.splitFirst?_eq_none_of_not_mem hslash hparts.1,
        partsBelow?, hbehind, ite_self]
      rfl
    · rw [intercalate_segment part hlast,
        Chars.splitFirst?_segment slash_not_mem_srcDir hparts.1, ih hparts.2, partsBelow?,
        stripPrefix?_closed hothers hparts.2 hlast, Option.map_or]
      congr 1
      split <;> rfl

/-- The part of a directory below a root, as text and as segments. -/
theorem below?_ofParts (hothers : ∀ part ∈ others, '/' ∉ part)
    (hparts : ∀ part ∈ parts, '/' ∉ part) :
    below? (ofParts parts) (ofParts (srcDir :: others))
      = (partsUnder? parts others).map ofParts := by
  have hroot : ∀ part ∈ srcDir :: others, '/' ∉ part :=
    List.forall_mem_cons.mpr ⟨slash_not_mem_srcDir, hothers⟩
  -- texts are equal if their segments are, since segments can be read off
  have hsame : (ofParts parts == ofParts (srcDir :: others)) = true ↔ parts = srcDir :: others := by
    rw [beq_iff_eq]
    refine ⟨fun heq => ?_, fun heq => heq ▸ rfl⟩
    by_cases hne : parts = []
    -- no segments give the empty text, and that is no root
    · have hread := RepoPath.segments_ofParts (List.cons_ne_nil _ _) hroot
      rw [← heq, hne] at hread
      have hempty : [] = srcDir := (List.cons.inj hread).1
      exact absurd hempty (by decide)
    · rw [← RepoPath.segments_ofParts hne hparts, heq,
        RepoPath.segments_ofParts (List.cons_ne_nil _ _) hroot]
  have hmark : (ofParts (srcDir :: others) ++ "/").toList = closed (srcDir :: others) := by
    rw [String.toList_append, RepoPath.toList_ofParts, closed_eq]
    rfl
  rw [below?, partsUnder?]
  by_cases heq : parts = srcDir :: others
  · rw [if_pos (hsame.mpr heq), if_pos heq]
    rfl
  · rw [if_neg (mt hsame.mp heq), if_neg heq, Text.splitFirst?, hmark, RepoPath.toList_ofParts]
    have hsearch := congrArg (Option.map String.ofList) (splitFirst?_closed hothers hparts)
    rw [Option.map_map, Option.map_map] at hsearch
    rw [Option.map_map]
    exact hsearch

/-- All names in the source roots are single segments. -/
theorem slash_not_mem_roots : ∀ others ∈ roots, ∀ part ∈ others, '/' ∉ part := by
  decide

/-- The source roots are `src` with each of the others behind it. -/
theorem sourceRoots_eq : sourceRoots = roots.map fun others => ofParts (srcDir :: others) := by
  decide

/-- The directory of a file has the segments before the last. -/
theorem parentDir_ofParts {dir : List (List Char)} {file : List Char} (hfile : '/' ∉ file) :
    RepoPath.parentDir (ofParts (dir ++ [file])) = ofParts dir := by
  unfold RepoPath.parentDir Text.splitLast?
  rw [RepoPath.toList_ofParts]
  by_cases hne : dir = []
  · rw [hne, List.nil_append, List.intercalate_singleton, Chars.splitLast?_of_not_mem hfile]
    rfl
  · rw [Chars.intercalate_append hne (List.cons_ne_nil _ _), List.intercalate_singleton,
      Chars.splitLast?_append _ hfile]
    rfl

/-- With dots for slashes, segments read as a package. -/
theorem replaceChar_ofParts (hparts : ∀ part ∈ parts, '/' ∉ part) :
    Text.replaceChar '/' '.' (ofParts parts) = dotted parts := by
  unfold Text.replaceChar Text.onChars dotted
  rw [RepoPath.toList_ofParts, Chars.map_replace_intercalate hparts]

/-! ## The first place that shows a root -/

/-- Segments with something behind them come before the last one. -/
theorem prefix_dropLast_iff (hne : parts ≠ []) :
    others <+: parts.dropLast ↔ ∃ rest, rest ≠ [] ∧ parts = others ++ rest := by
  constructor
  · rintro ⟨rest, hrest⟩
    refine ⟨rest ++ [parts.getLast hne], List.concat_ne_nil _ _, ?_⟩
    rw [← List.append_assoc, hrest, List.dropLast_append_getLast]
  · rintro ⟨rest, hrest, rfl⟩
    rw [List.dropLast_append_of_ne_nil hrest]
    exact List.prefix_append _ _

/-- What is found stands behind a segment that ends in `src` and the others. -/
theorem partsBelow?_eq_some (h : partsBelow? others parts = some rest) :
    rest ≠ [] ∧ ∃ front name, parts = front ++ (name ++ srcDir) :: (others ++ rest) := by
  induction parts with
  | nil => cases h
  | cons part parts ih =>
    rw [partsBelow?, Option.or_eq_some_iff] at h
    rcases h with hhere | ⟨-, hlater⟩
    · split at hhere
      next hsrc =>
        obtain ⟨name, rfl⟩ := hsrc
        obtain ⟨rfl, hne⟩ := partsBehind?_eq_some_iff.mp hhere
        exact ⟨hne, [], name, rfl⟩
      next => cases hhere
    · obtain ⟨hne, front, name, rfl⟩ := ih hlater
      exact ⟨hne, part :: front, name, rfl⟩

/-- Nothing is found exactly if no root is shown before the last segment. -/
theorem partsBelow?_eq_none_iff :
    partsBelow? others parts = none ↔ ¬ ShowsRoot others parts.dropLast := by
  induction parts with
  | nil => exact iff_of_true rfl showsRoot_nil
  | cons part parts ih =>
    by_cases hne : parts = []
    · -- a root and something below it are at least two segments
      subst hne
      refine iff_of_true ?_ showsRoot_nil
      rw [Option.eq_none_iff_forall_ne_some]
      intro rest hrest
      obtain ⟨hne, front, name, heq⟩ := partsBelow?_eq_some hrest
      have hlength := congrArg List.length heq
      have hpos := List.length_pos_iff.mpr hne
      simp only [List.length_append, List.length_cons, List.length_nil] at hlength
      omega
    · have hhere : (if srcDir <:+ part then partsBehind? others parts else none) = none ↔
          ¬ (srcDir <:+ part ∧ others <+: parts.dropLast) := by
        rw [prefix_dropLast_iff hne, Option.eq_none_iff_forall_ne_some]
        split
        next hsrc =>
          simp only [ne_eq, partsBehind?_eq_some_iff, hsrc, true_and, not_exists]
          exact forall_congr' fun rest => not_congr and_comm
        next hsrc => simp [hsrc]
      rw [partsBelow?, Option.or_eq_none_iff, hhere, ih, List.dropLast_cons_of_ne_nil hne,
        showsRoot_cons, not_or]

/-- Nothing before a segment `src` shows a root, so the search goes on from there. -/
theorem partsBelow?_append {above : List (List Char)} (hsrc : srcDir ∉ others)
    (habove : ¬ ShowsRoot others above) (more : List (List Char)) :
    partsBelow? others (above ++ srcDir :: more) = partsBelow? others (srcDir :: more) := by
  induction above with
  | nil => rfl
  | cons part above ih =>
    rw [showsRoot_cons, not_or] at habove
    have hhere : (if srcDir <:+ part then partsBehind? others (above ++ srcDir :: more) else none)
        = none := by
      rw [Option.eq_none_iff_forall_ne_some]
      intro rest hrest
      split at hrest
      next hends =>
        obtain ⟨heq, -⟩ := partsBehind?_eq_some_iff.mp hrest
        refine habove.1 ⟨hends, ?_⟩
        -- the others end before `src`, which is none of them
        rcases List.append_eq_append_iff.mp heq with ⟨mid, rfl, hmid⟩ | ⟨mid, rfl, -⟩
        · cases mid with
          | nil => rw [List.append_nil]
          | cons m mid =>
            obtain ⟨rfl, -⟩ := List.cons.inj hmid
            exact absurd (List.mem_append_right _ List.mem_cons_self) hsrc
        · exact List.prefix_append _ _
      next => cases hrest
    rw [List.cons_append, partsBelow?, hhere, Option.none_or, ih habove.2]

/-- A place that shows a root hides everything behind it. -/
theorem partsBelow?_append_of_shows {above more : List (List Char)}
    (habove : ShowsRoot others above) (hmore : more ≠ []) :
    ∃ rest, partsBelow? others (above ++ more) = some (rest ++ more) := by
  induction above with
  | nil => exact absurd habove showsRoot_nil
  | cons part above ih =>
    rw [List.cons_append, partsBelow?]
    rcases showsRoot_cons.mp habove with ⟨hends, rest, rfl⟩ | hlater
    · refine ⟨rest, ?_⟩
      rw [if_pos hends, partsBehind?_eq_some_iff.mpr
        ⟨List.append_assoc .., List.append_ne_nil_of_right_ne_nil _ hmore⟩]
      rfl
    · obtain ⟨rest, hrest⟩ := ih hlater
      -- the first segment may show a root as well, which then comes first
      cases hhere : (if srcDir <:+ part then partsBehind? others (above ++ more) else none) with
      | none => exact ⟨rest, hrest⟩
      | some found =>
        have hfound : partsBehind? others (above ++ more) = some found := by
          split at hhere
          · exact hhere
          · cases hhere
        obtain ⟨name, hinside⟩ := hlater
        -- the root is shown within the segments above, so there is room for the others
        have hlength : others.length + 1 ≤ above.length := hinside.length_le
        obtain ⟨rest, rfl⟩ := List.prefix_of_prefix_length_le
          ⟨found, (partsBehind?_eq_some_iff.mp hfound).1.symm⟩ (List.prefix_append above more)
          (by omega)
        have heq := (partsBehind?_eq_some_iff.mp hfound).1
        rw [List.append_assoc, List.append_cancel_left_eq] at heq
        exact ⟨rest, heq ▸ rfl⟩

/-- What is found is an end of the directory. -/
theorem partsBelow?_suffix (h : partsBelow? others parts = some rest) : rest <:+ parts := by
  obtain ⟨-, front, name, rfl⟩ := partsBelow?_eq_some h
  exact ⟨front ++ (name ++ srcDir) :: others, by rw [List.append_assoc, List.cons_append]⟩

end

/-! ## The inferred package -/

section

variable {dir : List (List Char)}

/-- The package is an end of the directory, or all of it. -/
theorem packageParts_suffix (dir : List (List Char)) : packageParts dir <:+ dir := by
  unfold packageParts
  cases hfound : roots.findSome? (partsUnder? dir) with
  | none => exact List.suffix_rfl
  | some found =>
    obtain ⟨others, -, hunder⟩ := List.exists_of_findSome?_eq_some hfound
    rw [partsUnder?] at hunder
    split at hunder
    · cases hunder
      exact List.nil_suffix
    · exact partsBelow?_suffix hunder

/-- **The inferred package in terms of segments.** -/
theorem inferred_ofParts {file : List Char} (hdir : ∀ part ∈ dir, '/' ∉ part)
    (hfile : '/' ∉ file) : inferred (ofParts (dir ++ [file])) = dotted (packageParts dir) := by
  -- the roots are tried in the same order on both sides
  have hsearch : ∀ tried : List (List (List Char)),
      (∀ others ∈ tried, ∀ part ∈ others, '/' ∉ part) →
      (tried.map fun others => ofParts (srcDir :: others)).findSome? (below? (ofParts dir))
        = (tried.findSome? (partsUnder? dir)).map ofParts := by
    intro tried htried
    induction tried with
    | nil => rfl
    | cons others tried ih =>
      rw [List.forall_mem_cons] at htried
      rw [List.map_cons, List.findSome?_cons, List.findSome?_cons, below?_ofParts htried.1 hdir,
        ih htried.2]
      cases partsUnder? dir others <;> rfl
  rw [inferred, parentDir_ofParts hfile, sourceRoots_eq, hsearch roots slash_not_mem_roots,
    Option.getD_map]
  exact replaceChar_ofParts fun part hpart => hdir part ((packageParts_suffix dir).subset hpart)

/-- Outside the roots themselves, the package is what stands below the first root that is found. -/
theorem packageParts_cases (h : ∀ others ∈ roots, dir ≠ srcDir :: others) :
    (∃ others ∈ roots, partsBelow? others dir = some (packageParts dir)) ∨
      packageParts dir = dir ∧ ∀ others ∈ roots, partsBelow? others dir = none := by
  have hunder : ∀ others ∈ roots, partsUnder? dir others = partsBelow? others dir :=
    fun others hothers => if_neg (h others hothers)
  unfold packageParts
  cases hfound : roots.findSome? (partsUnder? dir) with
  | some found =>
    obtain ⟨others, hothers, hhere⟩ := List.exists_of_findSome?_eq_some hfound
    exact .inl ⟨others, hothers, (hunder others hothers).symm.trans hhere⟩
  | none =>
    rw [List.findSome?_eq_none_iff] at hfound
    refine .inr ⟨rfl, fun others hothers => ?_⟩
    exact (hunder others hothers).symm.trans (hfound others hothers)

/-- The length of a package in terms of two parts of it. -/
theorem length_dotted_append {front rest : List (List Char)} (hfront : front ≠ [])
    (hrest : rest ≠ []) :
    (dotted (front ++ rest)).length = (dotted front).length + 1 + (dotted rest).length := by
  unfold dotted
  rw [Chars.intercalate_append hfront hrest]
  simp only [String.length_ofList, List.length_append, List.length_cons]
  omega

/-- A package is at least as long as each of its segments. -/
theorem length_le_length_dotted {part : List Char} {parts : List (List Char)}
    (h : part ∈ parts) : part.length ≤ (dotted parts).length := by
  obtain ⟨front, rest, rfl⟩ := List.append_of_mem h
  have hsingle : (dotted [part]).length = part.length := by
    rw [dotted, List.intercalate_singleton, String.length_ofList]
  have hpart : part.length ≤ (dotted (part :: rest)).length := by
    by_cases hrest : rest = []
    · rw [hrest, hsingle]
    · rw [← List.singleton_append, length_dotted_append (List.cons_ne_nil _ _) hrest]
      omega
  by_cases hfront : front = []
  · rwa [hfront]
  · rw [length_dotted_append hfront (List.cons_ne_nil _ _)]
    omega

/-- What stands below a segment `src` is shorter than what starts with it. -/
theorem dotted_ne_of_src (front others below : List (List Char)) :
    dotted (front ++ srcDir :: (others ++ below)) ≠ dotted below := by
  intro heq
  have hlength := congrArg String.length heq
  by_cases hbelow : below = []
  -- with nothing below, the package would be empty
  · have hsrc : srcDir ∈ front ++ srcDir :: (others ++ below) :=
      List.mem_append_right _ List.mem_cons_self
    have hle := length_le_length_dotted hsrc
    rw [hlength, hbelow] at hle
    exact absurd hle (by decide)
  · rw [← List.cons_append, ← List.append_assoc, length_dotted_append
      (List.append_ne_nil_of_right_ne_nil _ (List.cons_ne_nil _ _)) hbelow] at hlength
    omega

/-- A source root has at most three segments. -/
theorem ne_root_of_length (h : 4 ≤ dir.length) : ∀ others ∈ roots, dir ≠ srcDir :: others := by
  rintro others hothers rfl
  have hshort : ∀ others ∈ roots, others.length ≤ 2 := by decide
  have := hshort others hothers
  rw [List.length_cons] at h
  omega

/-- What stands below a place that shows a root is shorter than the whole. -/
theorem dotted_ne_of_partsBelow? {others rest : List (List Char)}
    (h : partsBelow? others dir = some rest) : dotted rest ≠ dotted dir := by
  obtain ⟨hne, front, name, hdir⟩ := partsBelow?_eq_some h
  intro heq
  have hlength := congrArg String.length heq
  rw [hdir, ← List.cons_append, ← List.append_assoc, length_dotted_append
    (List.append_ne_nil_of_right_ne_nil _ (List.cons_ne_nil _ _)) hne] at hlength
  omega

/-- A root with something above it and nothing below it is not found as such: its own segments are
taken for the package. -/
theorem dotted_packageParts_ne {above : List (List Char)} (habove : above ≠ []) (sub : List Char) :
    dotted (packageParts (above ++ [srcDir, sub, javaDir])) ≠ dotted [] := by
  have hlong : 4 ≤ (above ++ [srcDir, sub, javaDir]).length := by
    have hpos := List.length_pos_iff.mpr habove
    rw [List.length_append]
    exact Nat.add_le_add_right hpos 3
  have hne : packageParts (above ++ [srcDir, sub, javaDir]) ≠ [] := by
    rcases packageParts_cases (ne_root_of_length hlong) with ⟨others, -, hsome⟩ | ⟨heq, -⟩
    · exact (partsBelow?_eq_some hsome).1
    · rw [heq]
      exact List.append_ne_nil_of_left_ne_nil habove _
  -- the last segment is part of every end of the directory
  have hjava : javaDir ∈ packageParts (above ++ [srcDir, sub, javaDir]) := by
    have hlast : (packageParts (above ++ [srcDir, sub, javaDir])).getLast hne = javaDir := by
      rw [(packageParts_suffix _).getLast hne,
        List.getLast_append_of_right_ne_nil _ _ (List.cons_ne_nil _ _)]
      rfl
    have hmem := List.getLast_mem hne
    rwa [hlast] at hmem
  intro heq
  have hlength := length_le_length_dotted hjava
  rw [heq] at hlength
  exact absurd hlength (by decide)

/-- The first root that is tried decides if it is found. -/
theorem packageParts_of_first {found : List (List Char)}
    (h : partsUnder? dir [mainDir, javaDir] = some found) : packageParts dir = found := by
  rw [packageParts, roots, List.findSome?_cons, h]
  rfl

/-- The second one decides if the first is not found. -/
theorem packageParts_of_second {found : List (List Char)}
    (hfirst : partsUnder? dir [mainDir, javaDir] = none)
    (h : partsUnder? dir [testDir, javaDir] = some found) : packageParts dir = found := by
  rw [packageParts, roots, List.findSome?_cons, hfirst, List.findSome?_cons, h]
  rfl

section

variable {above below : List (List Char)}

/-- A root with something above or below it has four segments at least. -/
theorem four_le_length (h : ¬ (above = [] ∧ below = [])) (sub : List Char) :
    4 ≤ (above ++ srcDir :: ([sub, javaDir] ++ below)).length := by
  have hpos : 0 < above.length ∨ 0 < below.length := by
    rw [List.length_pos_iff, List.length_pos_iff]
    exact not_and_or.mp h
  simp only [List.length_append, List.length_cons, List.length_nil]
  omega

/-- A place above the root that shows the same one, or one that is tried before. -/
theorem dotted_packageParts_ne_of_shows {others sub : List (List Char)}
    (habove : ShowsRoot others above)
    (hfound : ∀ found, partsUnder? (above ++ srcDir :: (sub ++ below)) others = some found →
      packageParts (above ++ srcDir :: (sub ++ below)) = found)
    (hroot : above ++ srcDir :: (sub ++ below) ≠ srcDir :: others) :
    dotted (packageParts (above ++ srcDir :: (sub ++ below))) ≠ dotted below := by
  obtain ⟨rest, hrest⟩ := partsBelow?_append_of_shows habove
    (List.cons_ne_nil srcDir (sub ++ below))
  rw [hfound _ ((if_neg hroot).trans hrest)]
  exact dotted_ne_of_src rest sub below

/-- Below `src/main/java`, the first root that is tried. -/
theorem dotted_packageParts_main_iff :
    dotted (packageParts (above ++ srcDir :: ([mainDir, javaDir] ++ below))) = dotted below ↔
      (above = [] ∨ below ≠ []) ∧ ¬ ShowsRoot [mainDir, javaDir] above := by
  -- the root itself, which is compared as a whole and not searched for
  by_cases hempty : above = [] ∧ below = []
  · obtain ⟨rfl, rfl⟩ := hempty
    exact iff_of_true (by decide) ⟨.inl rfl, showsRoot_nil⟩
  have hroot := ne_root_of_length (four_le_length hempty mainDir)
  by_cases hshows : ShowsRoot [mainDir, javaDir] above
  · refine iff_of_false ?_ fun h => h.2 hshows
    exact dotted_packageParts_ne_of_shows hshows (fun found => packageParts_of_first)
      (hroot _ (by decide))
  -- nothing hides the root now, so all depends on what stands below it
  by_cases hbelow : below = []
  · have habove : above ≠ [] := fun hnil => hempty ⟨hnil, hbelow⟩
    subst hbelow
    exact iff_of_false (dotted_packageParts_ne habove mainDir) fun h => by simp [habove] at h
  · have hfound : partsUnder? (above ++ srcDir :: ([mainDir, javaDir] ++ below)) [mainDir, javaDir]
        = some below := by
      rw [partsUnder?, if_neg (hroot _ (by decide)), partsBelow?_append (by decide) hshows,
        partsBelow?, if_pos List.suffix_rfl, partsBehind?_eq_some_iff.mpr ⟨rfl, hbelow⟩]
      rfl
    rw [packageParts_of_first hfound]
    exact iff_of_true rfl ⟨.inr hbelow, hshows⟩

/-- Below `src/test/java`, which is tried after `src/main/java`. -/
theorem dotted_packageParts_test_iff :
    dotted (packageParts (above ++ srcDir :: ([testDir, javaDir] ++ below))) = dotted below ↔
      (above = [] ∨ below ≠ []) ∧ ¬ ShowsRoot [mainDir, javaDir] above ∧
        ¬ ShowsRoot [testDir, javaDir] above ∧ ¬ ShowsRoot [mainDir, javaDir] below.dropLast := by
  by_cases hempty : above = [] ∧ below = []
  · obtain ⟨rfl, rfl⟩ := hempty
    exact iff_of_true (by decide) ⟨.inl rfl, showsRoot_nil, showsRoot_nil, showsRoot_nil⟩
  have hroot := ne_root_of_length (four_le_length hempty testDir)
  by_cases hmain : ShowsRoot [mainDir, javaDir] above
  · refine iff_of_false ?_ fun h => h.2.1 hmain
    exact dotted_packageParts_ne_of_shows hmain (fun found => packageParts_of_first)
      (hroot _ (by decide))
  -- `src/main/java` can only be shown further below
  have hfirst : partsUnder? (above ++ srcDir :: ([testDir, javaDir] ++ below)) [mainDir, javaDir]
      = partsBelow? [mainDir, javaDir] below := by
    have hother : partsBehind? [mainDir, javaDir] (testDir :: javaDir :: below) = none := rfl
    rw [partsUnder?, if_neg (hroot _ (by decide)), partsBelow?_append (by decide) hmain,
      List.cons_append, List.singleton_append, partsBelow?, hother, ite_self, Option.none_or,
      partsBelow?, if_neg (by decide), Option.none_or, partsBelow?, if_neg (by decide),
      Option.none_or]
  by_cases hbehind : ShowsRoot [mainDir, javaDir] below.dropLast
  · -- a place further below is found instead, with less below it
    refine iff_of_false ?_ fun h => h.2.2.2 hbehind
    obtain ⟨found, hfound⟩ := Option.ne_none_iff_exists.mp
      (mt partsBelow?_eq_none_iff.mp (not_not.mpr hbehind))
    rw [packageParts_of_first (hfirst.trans hfound.symm)]
    exact dotted_ne_of_partsBelow? hfound.symm
  rw [partsBelow?_eq_none_iff.mpr hbehind] at hfirst
  by_cases htest : ShowsRoot [testDir, javaDir] above
  · refine iff_of_false ?_ fun h => h.2.2.1 htest
    exact dotted_packageParts_ne_of_shows htest (fun found => packageParts_of_second hfirst)
      (hroot _ (by decide))
  by_cases hbelow : below = []
  · have habove : above ≠ [] := fun hnil => hempty ⟨hnil, hbelow⟩
    subst hbelow
    exact iff_of_false (dotted_packageParts_ne habove testDir) fun h => by simp [habove] at h
  · have hfound : partsUnder? (above ++ srcDir :: ([testDir, javaDir] ++ below)) [testDir, javaDir]
        = some below := by
      rw [partsUnder?, if_neg (hroot _ (by decide)), partsBelow?_append (by decide) htest,
        partsBelow?, if_pos List.suffix_rfl, partsBehind?_eq_some_iff.mpr ⟨rfl, hbelow⟩]
      rfl
    rw [packageParts_of_second hfirst hfound]
    exact iff_of_true rfl ⟨.inr hbelow, hmain, htest, hbehind⟩

end

/-- Without a segment `src`, a directory is taken as a whole unless one of its segments ends in
`src` and is not the last. -/
theorem dotted_packageParts_iff (hsrc : srcDir ∉ dir) :
    dotted (packageParts dir) = dotted dir ↔ ¬ ShowsRoot [] dir.dropLast := by
  have hroot : ∀ others ∈ roots, dir ≠ srcDir :: others := by
    rintro others - rfl
    exact hsrc List.mem_cons_self
  rcases packageParts_cases hroot with ⟨others, -, hsome⟩ | ⟨heq, hnone⟩
  · refine iff_of_false (dotted_ne_of_partsBelow? hsome) fun hshows => ?_
    rw [partsBelow?_eq_none_iff.mpr fun hroot => hshows hroot.src] at hsome
    cases hsome
  · rw [heq]
    exact iff_of_true rfl (partsBelow?_eq_none_iff.mp (hnone [] (by decide)))

end

/--
**A source root is found as a text, not as segments.** Below `src/main/java` and `src/test/java` the
package has the segments below the root, unless something stands above the root and nothing below
it, or another place is taken for a root: one above it that shows the root or one that is tried
before, or one below it that shows `src/main/java`, which is tried first. A directory without a
segment `src` is taken as a whole unless a segment before its last one ends in `src`.
-/
theorem inferred_below_root_iff {above below : List (List Char)} {file : List Char}
    (habove : ∀ part ∈ above, '/' ∉ part) (hbelow : ∀ part ∈ below, '/' ∉ part)
    (hfile : '/' ∉ file) :
    (inferred (ofParts (above ++ [srcDir, mainDir, javaDir] ++ below ++ [file])) = dotted below ↔
      (above = [] ∨ below ≠ []) ∧ ¬ ShowsRoot [mainDir, javaDir] above) ∧
    (inferred (ofParts (above ++ [srcDir, testDir, javaDir] ++ below ++ [file])) = dotted below ↔
      (above = [] ∨ below ≠ []) ∧ ¬ ShowsRoot [mainDir, javaDir] above ∧
        ¬ ShowsRoot [testDir, javaDir] above ∧ ¬ ShowsRoot [mainDir, javaDir] below.dropLast) ∧
    ∀ path, srcDir ∉ RepoPath.segments path.toList →
      (inferred path = Text.replaceChar '/' '.' (RepoPath.parentDir path) ↔
        ¬ ShowsRoot [] (RepoPath.segments path.toList).dropLast.dropLast) := by
  have hslash : ∀ sub, '/' ∉ sub →
      ∀ part ∈ above ++ [srcDir, sub, javaDir] ++ below, '/' ∉ part := by
    intro sub hsub part hpart
    simp only [List.mem_append, List.mem_cons, List.not_mem_nil, or_false] at hpart
    rcases hpart with (hpart | rfl | rfl | rfl) | hpart
    · exact habove part hpart
    · decide
    · exact hsub
    · decide
    · exact hbelow part hpart
  refine ⟨?_, ?_, fun path hsrc => ?_⟩
  · rw [inferred_ofParts (hslash mainDir (by decide)) hfile, List.append_assoc]
    exact dotted_packageParts_main_iff
  · rw [inferred_ofParts (hslash testDir (by decide)) hfile, List.append_assoc]
    exact dotted_packageParts_test_iff
  · obtain ⟨dir, name, hsegments⟩ : ∃ dir name, RepoPath.segments path.toList = dir ++ [name] :=
      ⟨_, _, (List.dropLast_append_getLast (List.splitOn_ne_nil '/' path.toList)).symm⟩
    have hparts : ∀ part ∈ dir ++ [name], '/' ∉ part := by
      rw [← hsegments]
      exact fun part => RepoPath.slash_not_mem_of_mem_segments
    rw [List.forall_mem_append] at hparts
    have hname : '/' ∉ name := hparts.2 name List.mem_cons_self
    have hpath : path = ofParts (dir ++ [name]) := by
      rw [← hsegments, RepoPath.ofParts_segments]
    rw [hsegments, List.mem_append, not_or] at hsrc
    rw [hsegments, List.dropLast_concat, hpath, inferred_ofParts hparts.1 hname,
      parentDir_ofParts hname, replaceChar_ofParts hparts.1]
    exact dotted_packageParts_iff hsrc.1

/-- A root below directories whose names end in `src` too, and one of them as the last. -/
theorem inferred_below_root_library :
    inferred "mysrc/main/src/main/java/com/acme/A.java" = "com.acme" ∧
      inferred "mysrc/main/src/test/java/com/acme/A.java" = "com.acme" ∧
      inferred "lib/mysrc/A.java" = "lib.mysrc" := by
  have h : _ ∧ _ ∧ _ := @inferred_below_root_iff ["mysrc".toList, mainDir]
    ["com".toList, "acme".toList] "A.java".toList (by decide) (by decide) (by decide)
  refine ⟨h.1.mpr ?_, h.2.1.mpr ?_, (h.2.2 "lib/mysrc/A.java" ?_).mpr ?_⟩
  all_goals decide +kernel

/-- A root with nothing below it, and a directory whose name only ends in `src`. -/
theorem inferred_text_for_root :
    inferred "app/src/main/java/A.java" = "main.java" ∧
      inferred "mysrc/com/A.java" = "com" ∧
      Text.replaceChar '/' '.' (RepoPath.parentDir "mysrc/com/A.java") = "mysrc.com" := by
  decide +kernel

end JavaPackage

end SourceAtlas
