import SourceAtlas.Proofs.Extract.Apex.Marks
import SourceAtlas.Tree.Source

/-!
# Sharing modifiers and the header of a trigger

A pattern is searched in the text of the buffer, in code or not, and what it matches counts if it
starts in a span. In the cells, only code is looked at. Both come to the same: a match that starts
outside code hides no other, since no sharing modifier starts within one (`afterSharing?_eq_some`),
and no match starts where the marks of cells and the spans may differ (`not_mem_unmarked`).
-/

namespace SourceAtlas.Extract.Apex.InPlace

open Buffer Utf8
open Chars (byteLength byteLength_nil byteLength_cons byteLength_append byteLength_concat)

/-! ### Words in any case -/

/-- The letters of words are those of ASCII. -/
theorem asciiOnly_letter : AsciiOnly Text.isAsciiLetter := by
  intro c hc
  have hword := asciiOnly_wordByte c hc
  rw [isWordByte, Bool.or_eq_false_iff, Bool.or_eq_false_iff] at hword
  exact hword.1.1

/-- A letter of a word is a small or a capital letter, the long s or the Kelvin sign. -/
theorem matchesLetter_cases {l c : Char} (h : matchesLetter l c = true) :
    Chars.asciiLower c = l ∨ (l = 's' ∧ c = 'ſ') ∨ (l = 'k' ∧ c = 'K') := by
  simp only [matchesLetter, Bool.or_eq_true, Bool.and_eq_true, beq_iff_eq] at h
  rcases h with (h | ⟨hl, h⟩) | ⟨hl, h⟩
  · exact .inl h
  · exact .inr (.inl ⟨hl, Char.toNat_inj.mp h⟩)
  · exact .inr (.inr ⟨hl, Char.toNat_inj.mp h⟩)

/-- All of these are word characters, the two outside ASCII too. -/
theorem isWordChar_of_matchesLetter {l c : Char} (hl : Text.isAsciiLetter l = true)
    (h : matchesLetter l c = true) : Text.isWordChar c = true := by
  rcases matchesLetter_cases h with rfl | ⟨-, rfl⟩ | ⟨-, rfl⟩
  · have hc : c.toNat < 128 := ascii_of_test (asciiOnly_lower asciiOnly_letter) hl
    exact of_ascii (motive := fun c => Text.isAsciiLetter (Chars.asciiLower c) = true →
      Text.isWordChar c = true) (by decide) hc hl
  · decide
  · decide +kernel

/-- A word of letters is written in as many word characters. -/
theorem afterWord?_eq_some {ls cs rest : List Char}
    (hletters : ls.all Text.isAsciiLetter = true) (h : afterWord? ls cs = some rest) :
    ∃ word, cs = word ++ rest ∧ ∀ c ∈ word, Text.isWordChar c = true := by
  induction ls generalizing cs with
  | nil => exact ⟨[], Option.some.inj h, fun _ hc => nomatch hc⟩
  | cons l ls ih =>
    rw [List.all_cons, Bool.and_eq_true] at hletters
    cases cs with
    | nil => cases h
    | cons c cs =>
      rw [afterWord?] at h
      split at h
      · rename_i hc
        obtain ⟨word, rfl, hword⟩ := ih hletters.2 h
        have hc := isWordChar_of_matchesLetter hletters.1 hc
        exact ⟨c :: word, rfl, List.forall_mem_cons.mpr ⟨hc, hword⟩⟩
      · cases h

/-- And the first of them matches the first letter. -/
theorem afterWord?_cons_eq_some {l : Char} {ls cs rest : List Char}
    (hletters : (l :: ls).all Text.isAsciiLetter = true)
    (h : afterWord? (l :: ls) cs = some rest) :
    ∃ c part, cs = c :: (part ++ rest) ∧ matchesLetter l c = true ∧ Text.isWordChar c = true ∧
      ∀ d ∈ part, Text.isWordChar d = true := by
  rw [List.all_cons, Bool.and_eq_true] at hletters
  cases cs with
  | nil => cases h
  | cons c cs =>
    rw [afterWord?] at h
    split at h
    · rename_i hc
      obtain ⟨part, rfl, hpart⟩ := afterWord?_eq_some hletters.2 h
      exact ⟨c, part, rfl, hc, isWordChar_of_matchesLetter hletters.1 hc, hpart⟩
    · cases h

/-- Between two words stands a blank at least. -/
theorem afterBlanks?_eq_some {cs rest : List Char} (h : afterBlanks? cs = some rest) :
    ∃ blanks, cs = blanks ++ rest ∧ blanks ≠ [] ∧ ∀ c ∈ blanks, Text.isWhitespace c = true := by
  cases cs with
  | nil => cases h
  | cons c cs =>
    rw [afterBlanks?] at h
    split at h
    · rename_i hc
      obtain rfl := Option.some.inj h
      refine ⟨c :: cs.takeWhile Text.isWhitespace, ?_, List.cons_ne_nil _ _, ?_⟩
      · rw [List.cons_append, List.takeWhile_append_dropWhile]
      · exact List.forall_mem_cons.mpr ⟨hc, fun d hd => List.mem_takeWhile_imp hd⟩
    · cases h

/-! ### Where no sharing modifier starts -/

/-- Whether a sharing modifier can start with a character. -/
def startsSharing (c : Char) : Bool :=
  Chars.asciiLower c == 'w' || Chars.asciiLower c == 'i'

theorem asciiOnly_startsSharing : AsciiOnly startsSharing := by
  apply asciiOnly_lower (p := fun c => c == 'w' || c == 'i')
  intro c hc
  show (c == 'w' || c == 'i') = false
  rw [beq_high (by decide) hc, beq_high (by decide) hc, Bool.or_self]

/-- No modifier starts with a blank. -/
theorem startsSharing_of_whitespace {c : Char} (h : Text.isWhitespace c = true) :
    startsSharing c = false := by
  by_cases hc : c.toNat < 128
  · exact of_ascii (motive := fun c => Text.isWhitespace c = true → startsSharing c = false)
      (by decide) hc h
  · exact asciiOnly_startsSharing c (Nat.not_lt.mp hc)

/-- Nor with the `s` that its second word starts with. -/
theorem startsSharing_of_s {c : Char} (h : matchesLetter 's' c = true) :
    startsSharing c = false := by
  rcases matchesLetter_cases h with hlower | ⟨-, rfl⟩ | ⟨hk, -⟩
  · rw [startsSharing, hlower]
    decide
  · decide
  · exact absurd hk (by decide)

/-- Nowhere in some characters can a sharing modifier start. -/
def Quiet : Option Char → List Char → Prop
  | _, [] => True
  | previous, c :: cs => (isBoundary previous = false ∨ startsSharing c = false) ∧ Quiet (some c) cs

/-- Quiet characters after quiet ones, if it does not matter what comes before the second. -/
theorem Quiet.append {previous : Option Char} {cs ds : List Char} (h : Quiet previous cs)
    (h' : ∀ previous, Quiet previous ds) : Quiet previous (cs ++ ds) := by
  induction cs generalizing previous with
  | nil => exact h' previous
  | cons c cs ih => exact ⟨h.1, ih h.2⟩

/-- Within a word there is no boundary, so nothing starts there. -/
theorem quiet_word {c : Char} {word : List Char} (hc : Text.isWordChar c = true)
    (hword : ∀ d ∈ word, Text.isWordChar d = true) : Quiet (some c) word := by
  induction word generalizing c with
  | nil => trivial
  | cons d word ih =>
    rw [List.forall_mem_cons] at hword
    refine ⟨.inl ?_, ih hword.1 hword.2⟩
    rw [isBoundary, Option.map_some, Option.getD_some, hc, Bool.not_true]

/-- Nothing starts with a blank. -/
theorem quiet_blanks {blanks : List Char} (h : ∀ c ∈ blanks, Text.isWhitespace c = true)
    (previous : Option Char) : Quiet previous blanks := by
  induction blanks generalizing previous with
  | nil => trivial
  | cons c blanks ih =>
    exact ⟨.inr (startsSharing_of_whitespace (h c (List.mem_cons_self ..))),
      ih (fun d hd => h d (List.mem_cons_of_mem _ hd)) _⟩

/-- The three words that a modifier starts with. -/
theorem sharingWords_start :
    ∀ word ∈ ["with", "without", "inherited"],
      word.toList.all Text.isAsciiLetter = true ∧
        (word.toList.head? = some 'w' ∨ word.toList.head? = some 'i') := by
  decide

/-- A letter that matches one of their first letters can start a modifier. -/
theorem startsSharing_of_matchesLetter {l c : Char} (hl : l = 'w' ∨ l = 'i')
    (h : matchesLetter l c = true) : startsSharing c = true := by
  rcases matchesLetter_cases h with hlower | ⟨rfl, -⟩ | ⟨rfl, -⟩
  · rw [startsSharing, hlower]
    rcases hl with rfl | rfl
    · decide
    · decide
  · exact absurd hl (by decide)
  · exact absurd hl (by decide)

/-- A sharing modifier starts no other within it. -/
theorem afterSharing?_eq_some {cs rest : List Char} (h : afterSharing? cs = some rest) :
    ∃ c part, cs = c :: (part ++ rest) ∧ startsSharing c = true ∧ Quiet (some c) part := by
  obtain ⟨word, hword, h⟩ := List.exists_of_findSome?_eq_some h
  obtain ⟨hletters, hhead⟩ := sharingWords_start word hword
  have hsharing : "sharing".toList = 's' :: "haring".toList := by decide
  simp only [Option.bind_eq_bind, Option.bind_eq_some_iff, hsharing] at h
  obtain ⟨rest₁, h₁, rest₂, h₂, rest₃, h₃, h₄⟩ := h
  -- the test that the word is over takes nothing
  obtain rfl : rest₃ = rest := by
    split at h₄
    · exact Option.some.inj h₄
    · cases h₄
  generalize word.toList = letters at h₁ hhead hletters
  cases letters with
  | nil => simp at hhead
  | cons l ls =>
    rw [List.head?_cons, Option.some_inj, Option.some_inj] at hhead
    obtain ⟨c, first, rfl, hc, hcWord, hfirst⟩ := afterWord?_cons_eq_some hletters h₁
    obtain ⟨blanks, rfl, -, hblanks⟩ := afterBlanks?_eq_some h₂
    obtain ⟨s, second, rfl, hs, hsWord, hsecond⟩ := afterWord?_cons_eq_some (by decide) h₃
    refine ⟨c, first ++ (blanks ++ s :: second), ?_, startsSharing_of_matchesLetter hhead hc, ?_⟩
    · simp only [List.append_assoc, List.cons_append]
    · -- the rest of the first word, the blanks, and the second word with its first letter
      apply (quiet_word hcWord hfirst).append
      intro previous
      apply (quiet_blanks hblanks previous).append
      exact fun _ => ⟨.inr (startsSharing_of_s hs), quiet_word hsWord hsecond⟩

/-! ### Matches and blanked cells -/

/-- The character before, once some characters are passed. -/
def previousAfter (previous : Option Char) (cs : List Char) : Option Char :=
  cs.foldl (fun _ c => some c) previous

/-- Characters of a match are passed without being looked at. -/
theorem matchesFrom_skip (pattern : Pattern) (previous : Option Char) (offset : Nat)
    (part cs : List Char) :
    matchesFrom pattern previous part.length offset (part ++ cs)
      = matchesFrom pattern (previousAfter previous part) 0 (offset + byteLength part) cs := by
  induction part generalizing previous offset with
  | nil => rfl
  | cons c part ih =>
    rw [List.cons_append, matchesFrom, if_neg (by rw [List.length_cons]; omega), List.length_cons,
      Nat.add_sub_cancel, ih, byteLength_cons, Nat.add_assoc]
    rfl

theorem matchesFrom_none {pattern : Pattern} {previous : Option Char} {offset : Nat} {c : Char}
    {cs : List Char} (h : pattern previous (c :: cs) = none) :
    matchesFrom pattern previous 0 offset (c :: cs)
      = matchesFrom pattern (some c) 0 (offset + c.utf8Size) cs := by
  rw [matchesFrom, if_pos rfl, h]

/-- A match gives its range, and the search goes on behind it. -/
theorem matchesFrom_some {pattern : Pattern} {previous : Option Char} {offset : Nat} {c : Char}
    {part rest : List Char} (h : pattern previous (c :: (part ++ rest)) = some rest) :
    matchesFrom pattern previous 0 offset (c :: (part ++ rest))
      = (offset, offset + byteLength (c :: part))
        :: matchesFrom pattern (previousAfter (some c) part) 0 (offset + byteLength (c :: part))
          rest := by
  have hlength : (part ++ rest).length - rest.length = part.length := by
    rw [List.length_append, Nat.add_sub_cancel]
  have hsize : byteLength (c :: (part ++ rest)) - byteLength rest = byteLength (c :: part) := by
    rw [← List.cons_append, byteLength_append, Nat.add_sub_cancel]
  rw [matchesFrom, if_pos rfl, h]
  dsimp only
  rw [hlength, hsize, matchesFrom_skip, byteLength_cons, Nat.add_assoc]

section

variable {previous : Option Char} {cell : Cell} {part rest : List Cell}

/-- A modifier starts at the boundary of a word. -/
theorem sharing_eq_some {cs after : List Char} (h : sharing previous cs = some after) :
    isBoundary previous = true ∧ afterSharing? cs = some after := by
  rw [sharing] at h
  split at h
  · exact ⟨‹_›, h⟩
  · cases h

/-- A cell stays if it is no code, or if no modifier starts there. -/
theorem blankSharing_keep
    (h : cell.code = false ∨ sharing previous (cellChars (cell :: rest)) = none) :
    blankSharing previous 0 (cell :: rest) = cell :: blankSharing (some cell.char) 0 rest := by
  rw [blankSharing]
  rcases h with h | h
  · rw [h]
    rfl
  · rw [sharing] at h
    cases hcode : cell.code with
    | false => rfl
    | true =>
      cases hboundary : isBoundary previous with
      | false => rfl
      | true =>
        rw [if_pos hboundary] at h
        rw [h]
        rfl

/-- The cells of a modifier are blanked one by one. -/
theorem blankSharing_left (previous : Option Char) (part rest : List Cell) :
    blankSharing previous part.length (part ++ rest)
      = part.flatMap Cell.blank
        ++ blankSharing (previousAfter previous (cellChars part)) 0 rest := by
  induction part generalizing previous with
  | nil => rfl
  | cons cell part ih =>
    have hstep : blankSharing previous (part.length + 1) (cell :: (part ++ rest))
        = cell.blank ++ blankSharing (some cell.char) part.length (part ++ rest) := rfl
    rw [List.cons_append, List.length_cons, hstep, ih, List.flatMap_cons, List.append_assoc]
    rfl

/-- A modifier that starts in code is blanked as a whole. -/
theorem blankSharing_match (hcode : cell.code = true)
    (h : sharing previous (cellChars (cell :: (part ++ rest))) = some (cellChars rest)) :
    blankSharing previous 0 (cell :: (part ++ rest))
      = (cell :: part).flatMap Cell.blank
        ++ blankSharing (previousAfter (some cell.char) (cellChars part)) 0 rest := by
  obtain ⟨hboundary, h⟩ := sharing_eq_some h
  have hleft : (part ++ rest).length + 1 - (cellChars rest).length = part.length + 1 := by
    rw [cellChars, List.length_map, List.length_append]
    omega
  have hstep : blankSharing previous 0 (cell :: (part ++ rest))
      = cell.blank ++ blankSharing (some cell.char) part.length (part ++ rest) := by
    rw [blankSharing]
    simp only [hcode, hboundary, h, hleft]
    rfl
  rw [hstep, blankSharing_left, List.flatMap_cons, List.append_assoc]

/-- Where no modifier can start, none does. -/
theorem sharing_eq_none {c : Char} {cs : List Char}
    (h : isBoundary previous = false ∨ startsSharing c = false) :
    sharing previous (c :: cs) = none := by
  rw [Option.eq_none_iff_forall_ne_some]
  intro rest hrest
  obtain ⟨hboundary, hrest⟩ := sharing_eq_some hrest
  obtain ⟨d, part, hcons, hd, -⟩ := afterSharing?_eq_some hrest
  obtain rfl := (List.cons.inj hcons).1
  simp only [hboundary, hd, Bool.true_eq_false, or_self] at h

/-- Quiet cells stay as they are. -/
theorem blankSharing_quiet (h : Quiet previous (cellChars part)) :
    blankSharing previous 0 (part ++ rest)
      = part ++ blankSharing (previousAfter previous (cellChars part)) 0 rest := by
  induction part generalizing previous with
  | nil => rfl
  | cons cell part ih =>
    rw [List.cons_append, blankSharing_keep (.inr (sharing_eq_none h.1)), ih h.2]
    rfl

end

/-! ### The buffer -/

/-- The cells of a match are an initial part of what is left, and quiet. -/
theorem exists_cells_of_sharing {previous : Option Char} {cell : Cell} {cells : List Cell}
    {after : List Char} (h : sharing previous (cellChars (cell :: cells)) = some after) :
    ∃ part rest, cells = part ++ rest ∧ after = cellChars rest ∧ startsSharing cell.char = true ∧
      Quiet (some cell.char) (cellChars part) := by
  obtain ⟨c, cs, hcons, hstart, hquiet⟩ := afterSharing?_eq_some (sharing_eq_some h).2
  obtain ⟨rfl, hsplit⟩ := List.cons.inj hcons
  obtain ⟨part, rest, rfl, rfl, rfl⟩ := exists_cells_of_append hsplit
  exact ⟨part, rest, rfl, rfl, hstart, hquiet⟩

/-- The range of a match, told by its cells. -/
theorem matchesFrom_cells {pattern : Pattern} {previous : Option Char} {cell : Cell}
    {part rest : List Cell}
    (h : pattern previous (cellChars (cell :: (part ++ rest))) = some (cellChars rest))
    (offset : Nat) :
    matchesFrom pattern previous 0 offset (cellChars (cell :: (part ++ rest)))
      = (offset, offset + byteLength (cellChars (cell :: part)))
        :: matchesFrom pattern (previousAfter (some cell.char) (cellChars part)) 0
          (offset + byteLength (cellChars (cell :: part))) (cellChars rest) := by
  rw [cellChars_cons, cellChars_append] at h ⊢
  exact matchesFrom_some h

/-- Sharing modifiers are blanked in the buffer as in the cells. -/
theorem blankAll_sharing {content bytes : List UInt8} {spans : List Span} {done : List Char}
    {cells : List Cell} (previous : Option Char) (hbytes : At bytes done (cellChars cells))
    (hmarks : Grounded content spans (byteLength done) cells) :
    blankAll bytes ((matchesFrom sharing previous 0 (byteLength done) (cellChars cells)).filter
        fun range => inSpans spans range.1)
      = .ok (encode done ++ encode (cellChars (blankSharing previous 0 cells))) := by
  induction hn : cells.length using Nat.strong_induction_on
    generalizing cells done bytes previous with
  | _ n ih =>
  subst hn
  cases cells with
  | nil => exact congrArg Except.ok hbytes
  | cons cell rest =>
    cases hmatch : sharing previous (cellChars (cell :: rest)) with
    | none =>
      have hnext := ih rest.length (Nat.lt_succ_self _) (some cell.char) hbytes.next
        (by rw [byteLength_concat]; exact hmarks.2) rfl
      rw [byteLength_concat] at hnext
      rw [cellChars_cons] at hmatch
      rw [cellChars_cons, matchesFrom_none hmatch, hnext, blankSharing_keep (.inr hmatch)]
      simp only [cellChars_cons, encode_append, encode_cons, encode_nil, List.append_nil,
        List.append_assoc]
    | some after =>
      obtain ⟨part, rest, rfl, rfl, hstart, hquiet⟩ := exists_cells_of_sharing hmatch
      -- a modifier starts with a letter, and letters are marked as the spans say
      have hcode := (hmarks.1.marked (not_mem_unmarked (by decide) hstart)).1
      have hshort : rest.length < (cell :: (part ++ rest)).length := by
        rw [List.length_cons, List.length_append]
        omega
      rw [← List.cons_append, cellChars_append] at hbytes
      rw [← List.cons_append, grounded_append] at hmarks
      rw [matchesFrom_cells hmatch, List.filter_cons, hcode]
      cases hcell : cell.code with
      | true =>
        -- the range counts, and so does the match in the cells
        have hblank := blank_at hbytes.split (length_encode done).symm rfl
        rw [length_encode, length_encode, ← encode_flatMap_blank, ← encode_append] at hblank
        generalize hblanks : (cell :: part).flatMap Cell.blank = blanks at hblank
        have hdone : byteLength (done ++ cellChars blanks)
            = byteLength done + byteLength (cellChars (cell :: part)) := by
          rw [byteLength_append, ← hblanks, byteLength_flatMap_blank]
        have hat : At (encode (done ++ cellChars blanks) ++ encode (cellChars rest))
            (done ++ cellChars blanks) (cellChars rest) := rfl
        have hnext := ih rest.length hshort (previousAfter (some cell.char) (cellChars part))
          hat (hdone ▸ hmarks.2) rfl
        rw [blankAll, hdone] at hnext
        rw [if_pos rfl, blankAll, List.foldlM_cons, hblank, Edit.ok_bind, hnext,
          blankSharing_match hcell hmatch, hblanks, cellChars_append, encode_append, encode_append,
          List.append_assoc]
      | false =>
        -- the range is passed over; the cells in it are looked at, but no modifier starts there
        have hnext := ih rest.length hshort (previousAfter (some cell.char) (cellChars part))
          hbytes.append (by rw [byteLength_append]; exact hmarks.2) rfl
        rw [byteLength_append] at hnext
        rw [if_neg Bool.false_ne_true, hnext, blankSharing_keep (.inl hcell),
          blankSharing_quiet hquiet, ← List.cons_append, cellChars_append, encode_append,
          encode_append, List.append_assoc]

/-! ### The header of a trigger -/

/-- A word is as many word characters as there are. -/
theorem word?_eq_some {cs word rest : List Char} (h : word? cs = some (word, rest)) :
    cs = word ++ rest ∧ word ≠ [] ∧ ∀ c ∈ word, Text.isWordChar c = true := by
  rw [word?] at h
  split at h
  · cases h
  · rename_i hword
    obtain ⟨rfl, rfl⟩ := Prod.mk.inj (Option.some.inj h)
    refine ⟨List.takeWhile_append_dropWhile.symm, ?_, fun c hc => List.mem_takeWhile_imp hc⟩
    rwa [List.isEmpty_iff] at hword

theorem word?_suffix {cs word rest : List Char} (h : word? cs = some (word, rest)) :
    rest <:+ cs := by
  obtain ⟨rfl, -, -⟩ := word?_eq_some h
  exact List.suffix_append ..

theorem afterWord?_suffix {ls cs rest : List Char}
    (hletters : ls.all Text.isAsciiLetter = true) (h : afterWord? ls cs = some rest) :
    rest <:+ cs := by
  obtain ⟨word, rfl, -⟩ := afterWord?_eq_some hletters h
  exact List.suffix_append ..

/-- What follows blanks is an end of the text. -/
theorem afterBlanks?_suffix {cs rest : List Char} (h : afterBlanks? cs = some rest) :
    rest <:+ cs := by
  obtain ⟨blanks, rfl, -, -⟩ := afterBlanks?_eq_some h
  exact List.suffix_append ..

/-- What follows a character, after what a test holds of. -/
theorem suffix_of_dropWhile {p : Char → Bool} {c : Char} {cs rest : List Char}
    (h : cs.dropWhile p = c :: rest) : rest <:+ cs := by
  have hdrop : c :: rest <:+ cs := h ▸ List.dropWhile_suffix p
  exact (List.suffix_cons c rest).trans hdrop

/-- A header starts with a letter of `trigger` and ends where what follows it starts. -/
theorem headerAt?_eq_some {cs name object after : List Char}
    (h : headerAt? cs = some (name, object, after)) :
    ∃ c part, cs = c :: (part ++ after) ∧ matchesLetter 't' c = true := by
  have htrigger : "trigger".toList = 't' :: "rigger".toList := by decide
  simp only [headerAt?, Option.bind_eq_bind, Option.bind_eq_some_iff, htrigger] at h
  obtain ⟨rest₁, h₁, rest₂, h₂, ⟨_, rest₃⟩, h₃, rest₄, h₄, h⟩ := h
  obtain ⟨rest₅, h₅, rest₆, h₆, ⟨_, rest₇⟩, h₇, h⟩ := h
  -- the events stand in brackets, and the header ends with the second
  have hevents : after <:+ rest₇ := by
    split at h
    · rename_i events hopen
      split at h
      · rename_i hclose
        simp only [Option.some.injEq, Prod.mk.injEq] at h
        obtain ⟨-, -, rfl⟩ := h
        exact (suffix_of_dropWhile hclose).trans (suffix_of_dropWhile hopen)
      · cases h
    · cases h
  have hname : rest₄ <:+ rest₁ :=
    ((afterBlanks?_suffix h₄).trans (word?_suffix h₃)).trans (afterBlanks?_suffix h₂)
  have hobject : rest₇ <:+ rest₄ :=
    ((word?_suffix h₇).trans (afterBlanks?_suffix h₆)).trans (afterWord?_suffix (by decide) h₅)
  -- all steps leave an end of the text, so they do together
  obtain ⟨between, rfl⟩ := (hevents.trans hobject).trans hname
  obtain ⟨c, part, rfl, hc, -⟩ := afterWord?_cons_eq_some (by decide) h₁
  exact ⟨c, part ++ between, by rw [List.append_assoc], hc⟩

/-- The cells of a header are an initial part of what is left. -/
theorem exists_cells_of_header {previous : Option Char} {cell : Cell} {cells : List Cell}
    {name object after : List Char}
    (h : (if isBoundary previous then headerAt? (cellChars (cell :: cells)) else none)
      = some (name, object, after)) :
    ∃ part rest, cells = part ++ rest ∧ after = cellChars rest ∧
      matchesLetter 't' cell.char = true := by
  split at h
  · obtain ⟨c, cs, hcons, hc⟩ := headerAt?_eq_some h
    obtain ⟨rfl, hsplit⟩ := List.cons.inj hcons
    obtain ⟨part, rest, rfl, rfl, rfl⟩ := exists_cells_of_append hsplit
    exact ⟨part, rest, rfl, rfl, hc⟩
  · cases h

section

variable {content : List UInt8} {spans : List Span} {cells : List Cell}

/-- The header that a search comes to, in the cells and in their text. -/
theorem findHeader?_eq {previous : Option Char} {offset : Nat}
    (hmarks : Grounded content spans offset cells) :
    findHeader? previous offset cells
      = (firstHeader? previous offset (cellChars cells)).map
          fun h => (h, inSpans spans h.start) := by
  induction cells generalizing previous offset with
  | nil => rfl
  | cons cell rest ih =>
    rw [findHeader?, cellChars_cons, firstHeader?, ← cellChars_cons]
    dsimp only
    cases hhere : if isBoundary previous then headerAt? (cellChars (cell :: rest)) else none with
    | none => exact ih hmarks.2
    | some found =>
      obtain ⟨name, object, after⟩ := found
      obtain ⟨_, _, -, -, hstart⟩ := exists_cells_of_header hhere
      -- a header starts with a letter too
      have hcode := (hmarks.1.marked (not_mem_unmarked (by decide) hstart)).1
      dsimp only [Option.map_some]
      rw [hcode]

/-- The header counts if it starts in code, as marked or by the spans. -/
theorem triggerHeader?_eq (hmarks : Grounded content spans 0 cells) :
    triggerHeader? cells
      = (firstHeader? none 0 (cellChars cells)).filter fun h => inSpans spans h.start := by
  rw [triggerHeader?, findHeader?_eq hmarks]
  cases firstHeader? none 0 (cellChars cells) with
  | none => rfl
  | some h =>
    rw [Option.map_some, Option.filter_some]
    cases inSpans spans h.start with
    | true => rfl
    | false => rfl

/-- A header is a range of the text, of at least one character. -/
theorem firstHeader?_eq_some {previous : Option Char} {offset : Nat} {header : TriggerHeader}
    (h : firstHeader? previous offset (cellChars cells) = some header) :
    ∃ before cell part rest, cells = before ++ (cell :: part ++ rest) ∧
      header.start = offset + byteLength (cellChars before) ∧
      header.stop = header.start + byteLength (cellChars (cell :: part)) ∧
      matchesLetter 't' cell.char = true := by
  induction cells generalizing previous offset with
  | nil => cases h
  | cons cell rest ih =>
    rw [cellChars_cons, firstHeader?, ← cellChars_cons] at h
    cases hhere : if isBoundary previous then headerAt? (cellChars (cell :: rest)) else none with
    | none =>
      rw [hhere] at h
      obtain ⟨before, found, part, after, rfl, hstart, hstop, hfound⟩ := ih h
      refine ⟨cell :: before, found, part, after, rfl, ?_, hstop, hfound⟩
      rw [hstart, cellChars_cons, byteLength_cons, Nat.add_assoc]
    | some found =>
      obtain ⟨name, object, after⟩ := found
      obtain ⟨part, rest, rfl, rfl, hletter⟩ := exists_cells_of_header hhere
      rw [hhere] at h
      obtain rfl := Option.some.inj h
      refine ⟨[], cell, part, rest, rfl, rfl, ?_, hletter⟩
      dsimp only
      rw [← List.cons_append, cellChars_append, byteLength_append, Nat.add_sub_cancel]

end

/-! ### Blanking a range -/

section

variable {start stop offset : Nat} {part rest : List Cell}

/-- Cells before the range stay. -/
theorem blankRange_before (h : offset + byteLength (cellChars part) ≤ start) :
    blankRange start stop offset (part ++ rest)
      = part ++ blankRange start stop (offset + byteLength (cellChars part)) rest := by
  induction part generalizing offset with
  | nil => rfl
  | cons cell part ih =>
    rw [cellChars_cons, byteLength_cons, ← Nat.add_assoc] at h ⊢
    have hpos := cell.char.utf8Size_pos
    rw [List.cons_append, blankRange, decide_eq_false (by omega), Bool.false_and, ih h]
    rfl

/-- Cells within the range are blanked. -/
theorem blankRange_within (hstart : start ≤ offset)
    (hstop : offset + byteLength (cellChars part) ≤ stop) :
    blankRange start stop offset (part ++ rest)
      = part.flatMap Cell.blank
        ++ blankRange start stop (offset + byteLength (cellChars part)) rest := by
  induction part generalizing offset with
  | nil => rfl
  | cons cell part ih =>
    rw [cellChars_cons, byteLength_cons, ← Nat.add_assoc] at hstop ⊢
    have hpos := cell.char.utf8Size_pos
    rw [List.cons_append, blankRange, decide_eq_true hstart, decide_eq_true (by omega),
      ih (Nat.le_trans hstart (Nat.le_add_right ..)) hstop, List.flatMap_cons, List.append_assoc]
    rfl

/-- Cells behind the range stay. -/
theorem blankRange_after (h : stop ≤ offset) : blankRange start stop offset rest = rest := by
  induction rest generalizing offset with
  | nil => rfl
  | cons cell rest ih =>
    rw [blankRange, decide_eq_false (Nat.not_lt.mpr h), Bool.and_false,
      ih (Nat.le_trans h (Nat.le_add_right ..))]
    rfl

/-- So a range that starts and ends between cells blanks just those between. -/
theorem blankRange_eq {before : List Cell} (hstart : start = byteLength (cellChars before))
    (hstop : stop = start + byteLength (cellChars part)) :
    blankRange start stop 0 (before ++ (part ++ rest))
      = before ++ (part.flatMap Cell.blank ++ rest) := by
  rw [blankRange_before (by omega), blankRange_within (by omega) (by omega),
    blankRange_after (by omega)]

/-- A range of the buffer is blanked as the cells in it. -/
theorem blank_eq_blankRange {bytes : List UInt8} {before : List Cell}
    (hbytes : At bytes (cellChars before) (cellChars (part ++ rest)))
    (hstart : start = byteLength (cellChars before))
    (hstop : stop = start + byteLength (cellChars part)) :
    blank bytes start stop
      = .ok (encode (cellChars (blankRange start stop 0 (before ++ (part ++ rest))))) := by
  rw [cellChars_append] at hbytes
  have hblank := blank_at hbytes.split (length_encode _).symm rfl
  rw [length_encode, length_encode, ← encode_flatMap_blank, ← hstart, ← hstop] at hblank
  rw [hblank, blankRange_eq hstart hstop]
  simp only [cellChars_append, encode_append, List.append_assoc]

end

/-! ### Lines -/

/-- A line break is one byte, and no other character has that byte. -/
theorem length_filter_encodeChar (c : Char) :
    ((String.utf8EncodeChar c).filter (· == 10)).length = if c == '\n' then 1 else 0 := by
  by_cases hc : c.toNat < 128
  · have hbyte : (c.toUInt8 == 10) = (c == '\n') := by
      rw [Bool.eq_iff_iff, beq_iff_eq, beq_iff_eq]
      exact ⟨fun h => toUInt8_inj hc (by decide) (h.trans rfl), fun h => h ▸ rfl⟩
    rw [encodeChar_of_ascii hc, List.filter_singleton, hbyte]
    cases c == '\n' with
    | true => rfl
    | false => rfl
  · -- all bytes of the character are from 128 on
    have hnone : (String.utf8EncodeChar c).filter (· == 10) = [] := by
      rw [List.filter_eq_nil_iff]
      intro b hb
      have hhigh := high_of_mem_encodeChar (Nat.not_lt.mp hc) hb
      rw [beq_iff_eq]
      rintro rfl
      exact absurd hhigh (by decide)
    rw [hnone, beq_high (by decide) (Nat.not_lt.mp hc)]
    rfl

/-- Line breaks are counted alike in bytes and in characters. -/
theorem length_filter_encode (cs : List Char) :
    ((encode cs).filter (· == 10)).length = cs.count '\n' := by
  induction cs with
  | nil => rfl
  | cons c cs ih =>
    rw [encode_cons, List.filter_append, List.length_append, length_filter_encodeChar, ih,
      List.count_cons, Nat.add_comm]

/-- The line of a position between characters is the same, counted in characters or in bytes. -/
theorem lineOf_eq {text : String} {written rest : List Char}
    (h : At (Text.bytes text) written rest) :
    lineOf (Text.bytes text) (byteLength written)
      = .ok ((SourceText.ofString text).lineAt (byteLength written)) := by
  have hcut : cut (Text.bytes text) 0 (byteLength written) = .ok written := by
    have hstart : At (Text.bytes text) [] (written ++ rest) := by
      rw [At, h, encode_append]
      rfl
    have hcut := hstart.cut_eq
    rwa [byteLength_nil, Nat.zero_add] at hcut
  have htake : (SourceText.ofString text).bytes.toList.take (byteLength written)
      = encode written := by
    have hbytes : (SourceText.ofString text).bytes.toList = Text.bytes text := toList_toUTF8 text
    rw [hbytes, h, ← length_encode, List.take_left]
  rw [lineOf, hcut, Edit.ok_bind, SourceText.lineAt, htake, length_filter_encode]
  rfl

end SourceAtlas.Extract.Apex.InPlace
