import Mathlib.Data.List.DropRight
import SourceAtlas.Proofs.Text.Parts
import SourceAtlas.TypeName

/-!
# Type names: what a written type comes down to

A written type is taken apart in a fixed order: a union, quotes, keywords, pointers, slices, an
optional wrapper, and last the type arguments and question marks. Each step is taken once, so a mark
that shows up only when a later one is gone stays: `ref readonly Repo` comes down to
`readonly Repo`, and that to `Repo`. `normalize?_canonical_iff` says which names are final.

* **The rules.** `Refers` is what a text refers to, with as many steps as it takes. It is what
  `normalizeChars` computes (`normalizeChars_eq_iff`): the wrappers and slices of a text are fewer
  than its characters.
* **Names.** Whatever is found has the form of a name (`Refers.isName`).
* **Final names.** Each step leaves a part of the text, so a name that comes down to itself is left
  alone by every step (`refers_self_iff`).
-/

namespace SourceAtlas

namespace Chars

/-! ## What trimming leaves -/

/-- Whether no character of a class stands at either end. -/
def EndsOutside (p : Char → Bool) (cs : List Char) : Prop :=
  (∀ c ∈ cs.head?, p c = false) ∧ ∀ c ∈ cs.getLast?, p c = false

theorem endsOutside_iff {p : Char → Bool} {cs : List Char} :
    EndsOutside p cs ↔ (cs.head?.all (!p ·) && cs.getLast?.all (!p ·)) = true := by
  simp [EndsOutside, Option.all_eq_true]

instance (p : Char → Bool) (cs : List Char) : Decidable (EndsOutside p cs) :=
  decidable_of_iff _ endsOutside_iff.symm

variable (p : Char → Bool) (cs : List Char)

/-- Dropping from the end leaves a beginning. -/
theorem dropEndWhile_isPrefix : dropEndWhile p cs <+: cs :=
  List.rdropWhile_prefix p cs

/-- Trimming leaves a part of the text. -/
theorem trimWhile_isInfix : trimWhile p cs <:+: cs :=
  (dropEndWhile_isPrefix p _).isInfix.trans (List.dropWhile_suffix p).isInfix

variable {p cs}

/-- If nothing is dropped, the first character is outside the class. -/
theorem head_of_dropWhile_eq_self (h : cs.dropWhile p = cs) : ∀ c ∈ cs.head?, p c = false := by
  intro c hc
  have hnot := List.head?_dropWhile_not p cs
  rw [h, Option.mem_def.mp hc] at hnot
  simpa using hnot

theorem dropWhile_eq_self (h : ∀ c ∈ cs.head?, p c = false) : cs.dropWhile p = cs := by
  cases cs with
  | nil => rfl
  | cons c cs => rw [List.dropWhile_cons, h c rfl, if_neg Bool.false_ne_true]

theorem dropEndWhile_eq_self_iff : dropEndWhile p cs = cs ↔ ∀ c ∈ cs.getLast?, p c = false := by
  rw [dropEndWhile, ← List.head?_reverse, List.reverse_eq_iff]
  exact ⟨head_of_dropWhile_eq_self, dropWhile_eq_self⟩

/-- Nothing is trimmed off a text exactly if its ends are outside the class. -/
theorem trimWhile_eq_self_iff : trimWhile p cs = cs ↔ EndsOutside p cs := by
  constructor
  · intro h
    -- both steps leave the text as it is, since together they do
    have hdrop : cs.dropWhile p = cs := by
      refine (List.dropWhile_suffix p).eq_of_length_le ?_
      rw [← congrArg List.length h]
      exact (dropEndWhile_isPrefix p _).length_le
    rw [trimWhile, hdrop] at h
    exact ⟨head_of_dropWhile_eq_self hdrop, dropEndWhile_eq_self_iff.mp h⟩
  · rintro ⟨hhead, hlast⟩
    rw [trimWhile, dropWhile_eq_self hhead, dropEndWhile_eq_self_iff.mpr hlast]

/-- What trimming leaves has its ends outside the class. -/
theorem endsOutside_trimWhile (p : Char → Bool) (cs : List Char) :
    EndsOutside p (trimWhile p cs) := by
  have hlast : dropEndWhile p (trimWhile p cs) = trimWhile p cs :=
    List.rdropWhile_idempotent p (cs.dropWhile p)
  refine ⟨fun c hc => ?_, dropEndWhile_eq_self_iff.mp hlast⟩
  -- the second step keeps the first character, which the first step has reached
  obtain ⟨rest, hrest⟩ := dropEndWhile_isPrefix p (cs.dropWhile p)
  have hhead : (cs.dropWhile p).head? = some c := by
    rw [← hrest, List.head?_append, show (dropEndWhile p (cs.dropWhile p)).head? = some c from hc]
    rfl
  have hnot := List.head?_dropWhile_not p cs
  rw [hhead] at hnot
  simpa using hnot

/-- A part between separators stands in the text. -/
theorem infix_of_mem_splitOn {sep : Char} {part : List Char} (h : part ∈ cs.splitOn sep) :
    part <:+: cs := by
  have hjoined : ∀ parts : List (List Char), part ∈ parts → part <:+: [sep].intercalate parts := by
    intro parts hpart
    induction parts with
    | nil => cases hpart
    | cons first parts ih =>
      by_cases hlast : parts = []
      · rw [hlast, List.mem_singleton] at hpart
        exact ⟨[], [], by simp [hlast, hpart]⟩
      · rw [List.intercalate_cons_of_ne_nil hlast]
        rcases List.mem_cons.mp hpart with rfl | hmem
        · exact ((List.prefix_append _ _).trans (List.prefix_append _ _)).isInfix
        · exact (ih hmem).trans (List.suffix_append _ _).isInfix
  have hinside := hjoined _ h
  rwa [List.intercalate_splitOn] at hinside

end Chars

namespace TypeName

/-! ## The rules -/

/-- Takes off the slices at the start until none is left. -/
inductive Unsliced : List Char → List Char → Prop
  | plain {cs} (h : Chars.stripPrefix? ['[', ']'] cs = none) : Unsliced cs cs
  | slice {cs rest found} (h : Chars.stripPrefix? ['[', ']'] cs = some rest)
      (hrest : Unsliced (rest.dropWhile (· == '*')) found) : Unsliced cs found

/-- Takes off what stands before the name of a type. -/
def Unmarks (member found : List Char) : Prop :=
  Unsliced ((keywords.foldl dropKeyword (Chars.trimWhile isQuote member)).dropWhile
    fun c => c == '*' || c == '&') found

/-- The name that is left of a type; an empty or inferred one is none. -/
def named? (base : List Char) : Option (List Char) :=
  if base == [] || base == ['_'] || base == "var".toList then none else some base

/-- What a written type refers to. -/
inductive Refers : List Char → Option (List Char) → Prop
  | absent {cs} (h : unionMember? (Chars.trimWhile Text.isWhitespace cs) = none) : Refers cs none
  | wrapped {cs member found inner r}
      (h : unionMember? (Chars.trimWhile Text.isWhitespace cs) = some member)
      (hmarks : Unmarks member found) (hwrapper : optionalInner? found = some inner)
      (hinner : Refers inner r) : Refers cs r
  | name {cs member found}
      (h : unionMember? (Chars.trimWhile Text.isWhitespace cs) = some member)
      (hmarks : Unmarks member found) (hwrapper : optionalInner? found = none) :
      Refers cs (named? (head found))

section

variable {cs rest found member inner : List Char} {r : Option (List Char)}

/-- There is one way to take off slices. -/
theorem Unsliced.unique {found' : List Char} (h : Unsliced cs found) (h' : Unsliced cs found') :
    found = found' := by
  induction h with
  | plain hnone =>
    cases h' with
    | plain => rfl
    | slice hsome => rw [hnone] at hsome; cases hsome
  | slice hsome _ ih =>
    cases h' with
    | plain hnone => rw [hsome] at hnone; cases hnone
    | slice hsome' hrest =>
      obtain rfl := Option.some.inj (hsome.symm.trans hsome')
      exact ih hrest

/-- A text refers to one type at most. -/
theorem Refers.unique {r' : Option (List Char)} (h : Refers cs r) (h' : Refers cs r') : r = r' := by
  -- each step is a function of the text, so two derivations take the same steps
  induction h with
  | absent hnone =>
    cases h' with
    | absent => rfl
    | wrapped hsome => rw [hnone] at hsome; cases hsome
    | name hsome => rw [hnone] at hsome; cases hsome
  | wrapped hsome hmarks hwrapper _ ih =>
    cases h' with
    | absent hnone => rw [hsome] at hnone; cases hnone
    | wrapped hsome' hmarks' hwrapper' hinner =>
      obtain rfl := Option.some.inj (hsome.symm.trans hsome')
      obtain rfl := hmarks.unique hmarks'
      obtain rfl := Option.some.inj (hwrapper.symm.trans hwrapper')
      exact ih hinner
    | name hsome' hmarks' hwrapper' =>
      obtain rfl := Option.some.inj (hsome.symm.trans hsome')
      obtain rfl := hmarks.unique hmarks'
      rw [hwrapper] at hwrapper'
      cases hwrapper'
  | name hsome hmarks hwrapper =>
    cases h' with
    | absent hnone => rw [hsome] at hnone; cases hnone
    | wrapped hsome' hmarks' hwrapper' hinner =>
      obtain rfl := Option.some.inj (hsome.symm.trans hsome')
      obtain rfl := hmarks.unique hmarks'
      rw [hwrapper] at hwrapper'
      cases hwrapper'
    | name hsome' hmarks' hwrapper' =>
      obtain rfl := Option.some.inj (hsome.symm.trans hsome')
      obtain rfl := hmarks.unique hmarks'
      rfl

/-! ## Every step leaves a part of the text -/

/-- The member of a union stands in it. -/
theorem unionMember?_isInfix (h : unionMember? cs = some member) : member <:+: cs := by
  rw [unionMember?] at h
  split at h
  · obtain ⟨part, hpart, rfl⟩ := List.mem_map.mp (List.mem_of_find?_eq_some h)
    exact (Chars.trimWhile_isInfix _ _).trans (Chars.infix_of_mem_splitOn hpart)
  · cases h
    exact List.infix_rfl

/-- And it is no union itself. -/
theorem bar_not_mem_unionMember? (h : unionMember? cs = some member) : '|' ∉ member := by
  rw [unionMember?] at h
  split at h
  · obtain ⟨part, hpart, rfl⟩ := List.mem_map.mp (List.mem_of_find?_eq_some h)
    exact fun hmem => Chars.not_mem_of_mem_splitOn hpart ((Chars.trimWhile_isInfix _ _).subset hmem)
  · rename_i hbar
    cases h
    simpa using hbar

/-- A keyword is taken off the front. -/
theorem dropKeyword_suffix (cs : List Char) (keyword : String) : dropKeyword cs keyword <:+ cs := by
  rw [dropKeyword]
  split
  · rename_i rest hrest
    rw [Chars.stripPrefix?, List.isPrefixOf?_eq_some_iff_append_eq] at hrest
    exact (List.dropWhile_suffix _).trans ⟨keyword.toList, hrest⟩
  · exact List.suffix_rfl

theorem foldl_dropKeyword_suffix (words : List String) (cs : List Char) :
    words.foldl dropKeyword cs <:+ cs := by
  induction words generalizing cs with
  | nil => exact List.suffix_rfl
  | cons word words ih => exact (ih _).trans (dropKeyword_suffix cs word)

/-- So are slices. -/
theorem Unsliced.suffix (h : Unsliced cs found) : found <:+ cs := by
  induction h with
  | plain => exact List.suffix_rfl
  | slice hsome _ ih =>
    rw [Chars.stripPrefix?, List.isPrefixOf?_eq_some_iff_append_eq] at hsome
    exact ih.trans ((List.dropWhile_suffix _).trans ⟨_, hsome⟩)

/-- What is left of a type without its marks is a part of it. -/
theorem Unmarks.isInfix (h : Unmarks member found) : found <:+: member :=
  ((Unsliced.suffix h).trans ((List.dropWhile_suffix _).trans
    (foldl_dropKeyword_suffix _ _))).isInfix.trans (Chars.trimWhile_isInfix _ _)

/-- A wrapper is more than what it holds, and it has a bracket. -/
theorem optionalInner?_eq_some (h : optionalInner? cs = some inner) :
    inner <:+: cs ∧ inner.length < cs.length ∧ '[' ∈ cs := by
  obtain ⟨opened, hopened, hinner⟩ := Option.bind_eq_some_iff.mp h
  obtain ⟨start, hcs, hbracket⟩ : ∃ start, start ++ opened = cs ∧ '[' ∈ start := by
    rw [Option.orElse_eq_orElse, Option.orElse_eq_or, Option.or_eq_some_iff] at hopened
    rcases hopened with hopened | ⟨-, hopened⟩
    · exact ⟨_, List.isPrefixOf?_eq_some_iff_append_eq.mp hopened, by decide⟩
    · exact ⟨_, List.isPrefixOf?_eq_some_iff_append_eq.mp hopened, by decide⟩
  have hclosed : inner ++ [']'] = opened := List.isSuffixOf?_eq_some_iff_append_eq.mp hinner
  subst hclosed hcs
  refine ⟨⟨start, [']'], List.append_assoc ..⟩, ?_, List.mem_append_left _ hbracket⟩
  simp only [List.length_append, List.length_cons, List.length_nil]
  omega

theorem head_isInfix (cs : List Char) : head cs <:+: cs :=
  (Chars.trimWhile_isInfix _ _).trans
    ((Chars.dropEndWhile_isPrefix _ _).trans (List.takeWhile_prefix _)).isInfix

/-! ## The rules come to an end -/

/-- A slice takes two characters, so there is fuel for all of them. -/
theorem unsliced_dropSlices {fuel : Nat} (h : cs.length ≤ fuel) :
    Unsliced cs (dropSlices fuel cs) := by
  induction fuel generalizing cs with
  | zero =>
    obtain rfl := List.length_eq_zero_iff.mp (Nat.le_zero.mp h)
    exact .plain rfl
  | succ fuel ih =>
    rw [dropSlices]
    split
    · rename_i rest hrest
      have hcs := List.isPrefixOf?_eq_some_iff_append_eq.mp hrest
      refine .slice hrest (ih ?_)
      have hle := (List.dropWhile_suffix (l := rest) (· == '*')).length_le
      rw [← hcs, List.length_append, List.length_cons, List.length_singleton] at h
      omega
    · rename_i hnone
      exact .plain hnone

theorem unmarks_dropMarks (member : List Char) : Unmarks member (dropMarks member) :=
  unsliced_dropSlices le_rfl

/-- A wrapper is longer than what it holds, so there is fuel for all of them too. -/
theorem refers_normalizeWithin {fuel : Nat} (h : cs.length < fuel) :
    Refers cs (normalizeWithin fuel cs) := by
  induction fuel generalizing cs with
  | zero => exact absurd h (Nat.not_lt_zero _)
  | succ fuel ih =>
    rw [normalizeWithin]
    split
    · rename_i hnone
      exact .absent hnone
    · rename_i member hmember
      dsimp only
      split
      · rename_i inner hinner
        -- no step before the wrapper made the text longer
        have hshort := (optionalInner?_eq_some hinner).2.1
        have hmarks := (unmarks_dropMarks member).isInfix.length_le
        have hunion := (unionMember?_isInfix hmember).length_le
        have htrim := (Chars.trimWhile_isInfix Text.isWhitespace cs).length_le
        exact .wrapped hmember (unmarks_dropMarks member) hinner (ih (by omega))
      · rename_i hnone
        exact .name hmember (unmarks_dropMarks member) hnone

/-- **The rules lead to one result for every text**, and it is the one that is computed. -/
theorem normalizeChars_eq_iff : normalizeChars cs = r ↔ Refers cs r := by
  have hrefers : Refers cs (normalizeChars cs) := refers_normalizeWithin (Nat.lt_succ_self _)
  constructor
  · rintro rfl
    exact hrefers
  · exact hrefers.unique

end

/-! ## Names -/

/-- The form of a name. -/
structure IsName (t : List Char) : Prop where
  ne_nil : t ≠ []
  inferred : t ≠ ['_'] ∧ t ≠ "var".toList
  plain : ∀ c ∈ t, c ≠ '<' ∧ c ≠ '[' ∧ c ≠ '|'
  trimmed : Chars.EndsOutside Text.isWhitespace t

/-- Whether none of the marks is left that are taken off at either end of a type. -/
structure Unmarked (t : List Char) : Prop where
  quotes : Chars.EndsOutside isQuote t
  keyword : ∀ word ∈ keywords, ¬ word.toList <+: t
  pointer : ∀ c ∈ t.head?, (c == '*' || c == '&') = false
  nullable : ∀ c ∈ t.getLast?, (c == '?') = false

/-- The same as a test. -/
theorem unmarked_iff {t : List Char} :
    Unmarked t ↔ Chars.EndsOutside isQuote t ∧
      (keywords.all fun word => !word.toList.isPrefixOf t) = true ∧
      t.head?.all (fun c => !(c == '*' || c == '&')) = true ∧
      t.getLast?.all (fun c => !(c == '?')) = true := by
  have hkeyword : (keywords.all fun word => !word.toList.isPrefixOf t) = true ↔
      ∀ word ∈ keywords, ¬ word.toList <+: t := by
    simp [List.all_eq_true, ← List.isPrefixOf_iff_prefix]
  rw [hkeyword, Option.all_eq_true, Option.all_eq_true]
  simp only [Bool.not_eq_true']
  exact ⟨fun h => ⟨h.quotes, h.keyword, h.pointer, h.nullable⟩,
    fun h => ⟨h.1, h.2.1, h.2.2.1, h.2.2.2⟩⟩

instance (t : List Char) : Decidable (Unmarked t) :=
  decidable_of_iff _ unmarked_iff.symm

section

variable {cs t found : List Char}

/-- A name that is found is not empty and not inferred. -/
theorem named?_eq_some_iff {base : List Char} :
    named? base = some t ↔ base = t ∧ t ≠ [] ∧ t ≠ ['_'] ∧ t ≠ "var".toList := by
  rw [named?]
  split
  · rename_i hnone
    refine iff_of_false (Option.some_ne_none t).symm ?_
    rintro ⟨rfl, hne, hblank, hvar⟩
    simp only [Bool.or_eq_true, beq_iff_eq] at hnone
    exact hnone.elim (fun h => h.elim hne hblank) hvar
  · rename_i hsome
    simp only [Bool.or_eq_true, beq_iff_eq, not_or] at hsome
    rw [Option.some_inj]
    constructor
    · rintro rfl
      exact ⟨rfl, hsome.1.1, hsome.1.2, hsome.2⟩
    · exact fun h => h.1

/-- Type arguments are cut off with their bracket. -/
theorem plain_of_mem_head {c : Char} (h : c ∈ head found) : c ≠ '<' ∧ c ≠ '[' := by
  have hmem := (Chars.dropEndWhile_isPrefix _ _).subset ((Chars.trimWhile_isInfix _ _).subset h)
  simpa using List.mem_takeWhile_imp hmem

/-- **Whatever is found has the form of a name.** The induction is on the rules; a wrapper holds the
type whose name is found. -/
theorem Refers.isName {r : Option (List Char)} (h : Refers cs r) (hr : r = some t) : IsName t := by
  induction h with
  | absent => cases hr
  | wrapped _ _ _ _ ih => exact ih hr
  | @name cs member found hmember hmarks _ =>
    obtain ⟨rfl, hne, hinferred⟩ := named?_eq_some_iff.mp hr
    refine ⟨hne, hinferred, fun c hc => ?_, Chars.endsOutside_trimWhile _ _⟩
    have hbar : c ≠ '|' := by
      rintro rfl
      have hmem := hmarks.isInfix.subset ((head_isInfix found).subset hc)
      exact bar_not_mem_unionMember? hmember hmem
    obtain ⟨hangle, hbracket⟩ := plain_of_mem_head hc
    exact ⟨hangle, hbracket, hbar⟩

/-! ## Final names -/

/-- A text that does not start with a keyword is left alone. -/
theorem dropKeyword_eq_self {word : String} (h : ¬ word.toList <+: t) : dropKeyword t word = t := by
  rw [dropKeyword]
  split
  · rename_i rest hrest
    exact absurd ⟨rest, List.isPrefixOf?_eq_some_iff_append_eq.mp hrest⟩ h
  · rfl

/-- And only such a text is. -/
theorem not_prefix_of_dropKeyword {word : String} (hword : word.toList ≠ [])
    (h : dropKeyword t word = t) : ¬ word.toList <+: t := by
  rintro ⟨rest, hrest⟩
  have hstrip : Chars.stripPrefix? word.toList t = some rest :=
    List.isPrefixOf?_eq_some_iff_append_eq.mpr hrest
  rw [dropKeyword, hstrip] at h
  have hle := (List.dropWhile_suffix (l := rest) Text.isWhitespace).length_le
  have hlength := congrArg List.length hrest
  have hpos := List.length_pos_iff.mpr hword
  rw [show rest.dropWhile Text.isWhitespace = t from h] at hle
  rw [List.length_append] at hlength
  omega

/-- All keywords leave a text alone exactly if it starts with none of them. -/
theorem foldl_dropKeyword_eq_self_iff {words : List String}
    (hwords : ∀ word ∈ words, word.toList ≠ []) :
    words.foldl dropKeyword t = t ↔ ∀ word ∈ words, ¬ word.toList <+: t := by
  induction words with
  | nil => exact iff_of_true rfl fun word hword => nomatch hword
  | cons word words ih =>
    rw [List.forall_mem_cons] at hwords ⊢
    rw [List.foldl_cons]
    constructor
    · intro h
      -- the later steps make the text no longer, so this one made it no shorter
      have hhere : dropKeyword t word = t := by
        refine (dropKeyword_suffix t word).eq_of_length_le ?_
        rw [← congrArg List.length h]
        exact (foldl_dropKeyword_suffix words _).length_le
      rw [hhere] at h
      exact ⟨not_prefix_of_dropKeyword hwords.1 hhere, (ih hwords.2).mp h⟩
    · rintro ⟨hword, hrest⟩
      rw [dropKeyword_eq_self hword]
      exact (ih hwords.2).mpr hrest

theorem keywords_ne_nil : ∀ word ∈ keywords, word.toList ≠ [] := by
  decide

/-- A name is left whole exactly if no question mark ends it. -/
theorem head_eq_self (ht : IsName t) : head t = t ↔ ∀ c ∈ t.getLast?, (c == '?') = false := by
  have htake : t.takeWhile (fun c => c != '<' && c != '[') = t := by
    rw [List.takeWhile_eq_self_iff]
    intro c hc
    simpa using ⟨(ht.plain c hc).1, (ht.plain c hc).2.1⟩
  rw [head, htake]
  constructor
  · intro h
    have hmarks : Chars.dropEndWhile (· == '?') t = t := by
      refine (Chars.dropEndWhile_isPrefix _ t).eq_of_length_le ?_
      rw [← congrArg List.length h]
      exact (Chars.trimWhile_isInfix _ _).length_le
    exact Chars.dropEndWhile_eq_self_iff.mp hmarks
  · intro h
    rw [Chars.dropEndWhile_eq_self_iff.mpr h]
    exact Chars.trimWhile_eq_self_iff.mpr ht.trimmed

/-- What stands before a name is taken off until nothing is left of it. -/
theorem unmarks_self_iff (ht : IsName t) :
    Unmarks t t ↔ Chars.EndsOutside isQuote t ∧ (∀ word ∈ keywords, ¬ word.toList <+: t) ∧
      ∀ c ∈ t.head?, (c == '*' || c == '&') = false := by
  constructor
  · intro h
    -- no step makes the text longer, so each of them leaves it as it is
    have hpointers := (Unsliced.suffix h).length_le
    have hkeywords := (List.dropWhile_suffix (fun c => c == '*' || c == '&')
      (l := keywords.foldl dropKeyword (Chars.trimWhile isQuote t))).length_le
    have hquotes := (foldl_dropKeyword_suffix keywords (Chars.trimWhile isQuote t)).length_le
    have hquoted : Chars.trimWhile isQuote t = t :=
      (Chars.trimWhile_isInfix _ _).eq_of_length_le (by omega)
    rw [hquoted] at hpointers hkeywords hquotes
    have hwords : keywords.foldl dropKeyword t = t :=
      (foldl_dropKeyword_suffix _ _).eq_of_length_le (by omega)
    rw [hwords] at hpointers
    have hpointed : t.dropWhile (fun c => c == '*' || c == '&') = t :=
      (List.dropWhile_suffix _).eq_of_length_le hpointers
    exact ⟨Chars.trimWhile_eq_self_iff.mp hquoted,
      (foldl_dropKeyword_eq_self_iff keywords_ne_nil).mp hwords,
      Chars.head_of_dropWhile_eq_self hpointed⟩
  · rintro ⟨hquotes, hkeywords, hpointers⟩
    rw [Unmarks, Chars.trimWhile_eq_self_iff.mpr hquotes,
      (foldl_dropKeyword_eq_self_iff keywords_ne_nil).mpr hkeywords,
      Chars.dropWhile_eq_self hpointers]
    refine .plain ?_
    rw [Option.eq_none_iff_forall_ne_some]
    intro rest hrest
    have hslice : ['[', ']'] ++ rest = t := List.isPrefixOf?_eq_some_iff_append_eq.mp hrest
    exact (ht.plain '[' (hslice ▸ List.mem_cons_self)).2.1 rfl

/-- **A name is final if it has no marks left**, and only then. -/
theorem refers_self_iff (ht : IsName t) : Refers t (some t) ↔ Unmarked t := by
  have hmember : unionMember? (Chars.trimWhile Text.isWhitespace t) = some t := by
    have hbar : t.contains '|' = false := by
      rw [← Bool.not_eq_true, List.contains_iff_mem]
      exact fun hmem => (ht.plain '|' hmem).2.2 rfl
    rw [Chars.trimWhile_eq_self_iff.mpr ht.trimmed, unionMember?, hbar]
    rfl
  -- a wrapper has a bracket in it, and a name has none
  have hwrapper : ∀ {found}, found <:+: t → optionalInner? found = none := by
    intro found hfound
    rw [Option.eq_none_iff_forall_ne_some]
    intro inner hinner
    exact (ht.plain '[' (hfound.subset (optionalInner?_eq_some hinner).2.2)).2.1 rfl
  constructor
  · intro h
    -- the result as a variable, for the case split on the derivation
    obtain ⟨r, hr, h⟩ : ∃ r, r = some t ∧ Refers t r := ⟨_, rfl, h⟩
    cases h with
    | absent => cases hr
    | wrapped hmember' hmarks hinner =>
      obtain rfl := Option.some.inj (hmember.symm.trans hmember')
      rw [hwrapper hmarks.isInfix] at hinner
      cases hinner
    | @name _ _ found hmember' hmarks =>
      obtain rfl := Option.some.inj (hmember.symm.trans hmember')
      have hhead := (named?_eq_some_iff.mp hr).1
      -- what is found is as long as the name, so nothing was taken off before
      have hlength := (head_isInfix found).length_le
      rw [hhead] at hlength
      obtain rfl := hmarks.isInfix.eq_of_length_le hlength
      obtain ⟨hquotes, hkeywords, hpointers⟩ := (unmarks_self_iff ht).mp hmarks
      exact ⟨hquotes, hkeywords, hpointers, (head_eq_self ht).mp hhead⟩
  · rintro ⟨hquotes, hkeywords, hpointers, hnullable⟩
    have hmarks : Unmarks t t := (unmarks_self_iff ht).mpr ⟨hquotes, hkeywords, hpointers⟩
    have hname : named? (head t) = some t :=
      named?_eq_some_iff.mpr ⟨(head_eq_self ht).mpr hnullable, ht.ne_nil, ht.inferred⟩
    rw [← hname]
    exact .name hmember hmarks (hwrapper List.infix_rfl)

end

/-- The rules, for texts. -/
theorem normalize?_eq_some_iff {written t : String} :
    normalize? written = some t ↔ Refers written.toList (some t.toList) := by
  rw [normalize?, Option.map_eq_some_iff, ← normalizeChars_eq_iff]
  constructor
  · rintro ⟨cs, hcs, rfl⟩
    rw [hcs, String.toList_ofList]
  · exact fun h => ⟨_, h, String.ofList_toList⟩

/--
**A type comes down to a name in finitely many steps, but not always to a final one.** The rules
lead to one result for every written type. A name that is found is not empty and has no angle
bracket, no bracket and no bar in it. It comes down to itself if and only if no mark is left at its
ends: no quote, no keyword or pointer before it, no question mark behind it.
-/
theorem normalize?_canonical_iff (written : String) :
    (∀ r, Refers written.toList r ↔ (normalize? written).map String.toList = r) ∧
      ∀ t, normalize? written = some t →
        t ≠ "" ∧ (∀ c ∈ t.toList, c ≠ '<' ∧ c ≠ '[' ∧ c ≠ '|') ∧
          (normalize? t = some t ↔ Unmarked t.toList) := by
  have hchars : (normalize? written).map String.toList = normalizeChars written.toList := by
    rw [normalize?, Option.map_map]
    simp [Function.comp_def]
  refine ⟨fun r => ?_, fun t ht => ?_⟩
  · rw [hchars]
    exact normalizeChars_eq_iff.symm
  · have hname := (normalize?_eq_some_iff.mp ht).isName rfl
    refine ⟨?_, hname.plain, normalize?_eq_some_iff.trans (refers_self_iff hname)⟩
    rintro rfl
    exact hname.ne_nil rfl

/-- A slice of pointers comes down to a final name. -/
theorem normalize?_canonical_slice :
    normalize? "[]*models.User" = some "models.User" ∧ Unmarked "models.User".toList ∧
      normalize? "models.User" = some "models.User" := by
  have hslice : normalize? "[]*models.User" = some "models.User" := by decide +kernel
  have hfinal : Unmarked "models.User".toList := by decide +kernel
  exact ⟨hslice, hfinal,
    (((normalize?_canonical_iff "[]*models.User").2 "models.User" hslice).2.2).mpr hfinal⟩

/-- Keywords in another order than the one in which they are tried: the name that is found is not
final. -/
theorem normalize?_refReadonly :
    normalize? "ref readonly Repo" = some "readonly Repo" ∧
      normalize? "readonly Repo" = some "Repo" := by
  decide +kernel

end TypeName

end SourceAtlas
