import SourceAtlas.Proofs.Extract.Apex.Keywords

/-!
# Marks of cells, and the spans of code

A cell says whether it is code, and in the buffer the spans say so of its byte. A scan makes the two
agree (`Covers.grounded`), stand-ins of queries apart. Words that are exchanged and cells that are
blanked keep what the marks say (`Grounded.reworded`, `Grounded.blanked`), so the later steps can
ask the cells where the buffer asks the spans.
-/

namespace SourceAtlas.Extract.Apex.InPlace

open Buffer Utf8
open Chars (byteLength byteLength_nil byteLength_cons byteLength_append byteLength_concat)

/-! ### What cells tell of the spans -/

/--
What the mark of a cell at byte `p` says of the spans. A blank says nothing, and the stand-in of a
query lies in a span although it is not code.
-/
def Sound (content : List UInt8) (spans : List Span) (p : Nat) (cell : Cell) : Prop :=
  cell.char = ' ' ∨ (cell.code = false ∧ cell.char ∈ "null".toList) ∨
    (inSpans spans p = cell.code ∧
      (cell.code = true → ∃ written rest, At content written rest ∧ byteLength written = p))

/-- The characters of blanks and stand-ins, by which a mark cannot be told. -/
def unmarked : List Char :=
  ' ' :: "null".toList

/-- The marks of cells are those of the spans, from byte `p` on. -/
def Grounded (content : List UInt8) (spans : List Span) : Nat → List Cell → Prop
  | _, [] => True
  | p, cell :: rest =>
    Sound content spans p cell ∧ Grounded content spans (p + cell.char.utf8Size) rest

section

variable {content : List UInt8} {spans : List Span} {p : Nat} {cells cells' : List Cell}

/-- The marks of cells one after another. -/
theorem grounded_append :
    Grounded content spans p (cells ++ cells') ↔
      Grounded content spans p cells ∧
        Grounded content spans (p + byteLength (cellChars cells)) cells' := by
  induction cells generalizing p with
  | nil => exact ⟨fun h => ⟨trivial, h⟩, And.right⟩
  | cons cell cells ih =>
    rw [List.cons_append, Grounded, ih, Grounded, and_assoc, cellChars_cons, byteLength_cons,
      Nat.add_assoc]

/-- Marks are those of the spans if each of them is, wherever its cell stands. -/
theorem grounded_of_forall (h : ∀ q, ∀ cell ∈ cells, p ≤ q → q < p + byteLength (cellChars cells) →
      Sound content spans q cell) : Grounded content spans p cells := by
  induction cells generalizing p with
  | nil => trivial
  | cons cell cells ih =>
    have hpos := cell.char.utf8Size_pos
    rw [cellChars_cons, byteLength_cons] at h
    refine ⟨h p cell (List.mem_cons_self ..) (Nat.le_refl p) (by omega), ih fun q c hc hq hlt => ?_⟩
    exact h q c (List.mem_cons_of_mem _ hc) (by omega) (by omega)

/--
A cell that no blank and no stand-in can be is in a span exactly if it is code, and there the text
as written can be cut.
-/
theorem Sound.marked {cell : Cell} (h : Sound content spans p cell)
    (hchar : cell.char ∉ unmarked) :
    inSpans spans p = cell.code ∧
      (cell.code = true → ∃ written rest, At content written rest ∧ byteLength written = p) := by
  rcases h with h | ⟨-, h⟩ | h
  · exact absurd (h ▸ List.mem_cons_self ..) hchar
  · exact absurd (List.mem_cons_of_mem _ h) hchar
  · exact h

/-- A test that no blank and no stand-in passes finds a cell by whose mark the spans can be told. -/
theorem not_mem_unmarked {t : Char → Bool} (ht : unmarked.any t = false) {c : Char}
    (h : t c = true) : c ∉ unmarked :=
  fun hmem => List.any_eq_false.mp ht c hmem h

end

/-! ### Blanked cells -/

/-- Some of the cells are blanked, and the others stay. -/
inductive Blanked : List Cell → List Cell → Prop
  | nil : Blanked [] []
  | keep {old new : List Cell} (cell : Cell) (h : Blanked old new) :
      Blanked (cell :: old) (cell :: new)
  | blank {old new : List Cell} (cell : Cell) (h : Blanked old new) :
      Blanked (cell :: old) (cell.blank ++ new)

/-- A blanked cell takes as many bytes. -/
theorem byteLength_blank (cell : Cell) :
    byteLength (cellChars cell.blank) = cell.char.utf8Size := by
  rw [← length_encode, encode_blank, List.length_map, String.length_utf8EncodeChar]

/-- Blanking keeps the length in bytes. -/
theorem Blanked.byteLength_eq {old new : List Cell} (h : Blanked old new) :
    byteLength (cellChars new) = byteLength (cellChars old) := by
  induction h with
  | nil => rfl
  | keep cell h ih => rw [cellChars_cons, cellChars_cons, byteLength_cons, byteLength_cons, ih]
  | blank cell h ih =>
    rw [cellChars_append, byteLength_append, byteLength_blank, ih, cellChars_cons, byteLength_cons]

/-- Blanking keeps marks and line breaks, and so what they say. -/
theorem Sound.blank {content : List UInt8} {spans : List Span} {p : Nat} {cell : Cell}
    (h : Sound content spans p cell) : Grounded content spans p cell.blank := by
  rw [Cell.blank, blankChar]
  split
  · -- a line break stays
    exact ⟨h, trivial⟩
  · -- blanks say nothing
    apply grounded_of_forall
    intro q blank hblank _ _
    obtain ⟨c, hc, rfl⟩ := List.mem_map.mp hblank
    exact .inl (List.eq_of_mem_replicate hc)

/-- Blanking some cells keeps what the marks say. -/
theorem Grounded.blanked {content : List UInt8} {spans : List Span} {p : Nat}
    {old new : List Cell} (h : Grounded content spans p old) (hnew : Blanked old new) :
    Grounded content spans p new := by
  induction hnew generalizing p with
  | nil => trivial
  | keep cell hnew ih => exact ⟨h.1, ih h.2⟩
  | blank cell hnew ih =>
    rw [grounded_append, byteLength_blank]
    exact ⟨h.1.blank, ih h.2⟩

/-- Masking `with sharing` blanks cells. -/
theorem blankSharing_blanked (previous : Option Char) (left : Nat) (cells : List Cell) :
    Blanked cells (blankSharing previous left cells) := by
  induction cells generalizing previous left with
  | nil => exact .nil
  | cons cell rest ih =>
    have hstep : ∀ n : Nat, Blanked (cell :: rest)
        (if n == 0 then cell :: blankSharing (some cell.char) 0 rest
          else cell.blank ++ blankSharing (some cell.char) (n - 1) rest) := by
      intro n
      split
      · exact .keep cell (ih ..)
      · exact .blank cell (ih ..)
    exact hstep _

/-- So does masking a header. -/
theorem blankRange_blanked (start stop offset : Nat) (cells : List Cell) :
    Blanked cells (blankRange start stop offset cells) := by
  induction cells generalizing offset with
  | nil => exact .nil
  | cons cell rest ih =>
    rw [blankRange]
    split
    · exact .blank cell (ih ..)
    · exact .keep cell (ih ..)

/-! ### Spans of a scan -/

/-- The spans of a scan start where it starts or behind. -/
theorem Covers.le_start {p : Nat} {cs : List Char} {cells : List Cell} {spans : List Span}
    (h : Covers p cs cells spans) : ∀ span ∈ spans, p ≤ span.1 := by
  induction h with
  | nil p => exact fun _ h => nomatch h
  | gap hcode hsize h ih =>
    exact fun span hspan => Nat.le_trans (Nat.le_add_right ..) (ih span hspan)
  | code hrun hnext h ih =>
    exact List.forall_mem_cons.mpr
      ⟨Nat.le_refl _, fun span hspan => Nat.le_trans (Nat.le_add_right ..) (ih span hspan)⟩
  | standIn hfour h ih =>
    exact List.forall_mem_cons.mpr
      ⟨Nat.le_refl _, fun span hspan => Nat.le_trans (Nat.le_add_right ..) (ih span hspan)⟩

/-- The cells of a scan take as many bytes as the text. -/
theorem Covers.byteLength_eq {p : Nat} {cs : List Char} {cells : List Cell} {spans : List Span}
    (h : Covers p cs cells spans) : byteLength (cellChars cells) = byteLength cs := by
  induction h with
  | nil p => rfl
  | gap hcode hsize h ih => rw [cellChars_append, byteLength_append, byteLength_append, hsize, ih]
  | code hrun hnext h ih =>
    rw [cellChars_append, byteLength_append, byteLength_append, cellChars_map_plain, ih]
  | standIn hfour h ih =>
    rw [cellChars_append, byteLength_append, byteLength_append, cellChars_map_other, ih, hfour]
    rfl

/-- A byte between spans is in none of them. -/
theorem inSpans_eq_false {spans : List Span} {p : Nat}
    (h : ∀ span ∈ spans, span.2 ≤ p ∨ p < span.1) : inSpans spans p = false := by
  rw [inSpans, List.any_eq_false]
  intro span hspan
  rw [Bool.and_eq_true, decide_eq_true_eq, decide_eq_true_eq]
  have := h span hspan
  omega

/-- A run of code lies in a span, and can be cut at each of its characters. -/
theorem grounded_run {content : List UInt8} {spans : List Span} {written run cs : List Char}
    (hcontent : At content written (run ++ cs))
    (hspans : ∀ q, byteLength written ≤ q → q < byteLength written + byteLength run →
      inSpans spans q = true) :
    Grounded content spans (byteLength written) (run.map plain) := by
  induction run generalizing written with
  | nil => trivial
  | cons c run ih =>
    have hpos := c.utf8Size_pos
    rw [byteLength_cons] at hspans
    have hc : Sound content spans (byteLength written) (plain c) :=
      .inr (.inr ⟨hspans _ (Nat.le_refl _) (by omega), fun _ => ⟨written, _, hcontent, rfl⟩⟩)
    refine ⟨hc, ?_⟩
    have hnext := ih hcontent.next
    rw [byteLength_concat] at hnext
    exact hnext fun q hle hlt => hspans q (by omega) (by omega)

/-- A scan marks as code what lies in its spans, stand-ins apart. -/
theorem Covers.grounded {p : Nat} {cs : List Char} {cells : List Cell} {spans : List Span}
    (h : Covers p cs cells spans) {content : List UInt8} {written : List Char}
    (hcontent : At content written cs) (hwritten : byteLength written = p) {earlier : List Span}
    (hearlier : ∀ span ∈ earlier, span.2 ≤ p) : Grounded content (earlier ++ spans) p cells := by
  induction h generalizing written earlier with
  | nil p => trivial
  | @gap p part cs between cells spans hcode hsize h ih =>
    -- between spans: those before end here, and those to come start later
    rw [grounded_append, hsize]
    refine ⟨grounded_of_forall fun q cell hcell hle hlt => ?_, ih hcontent.append ?_ ?_⟩
    · have hnot : inSpans (earlier ++ spans) q = false := by
        apply inSpans_eq_false
        intro span hspan
        rcases List.mem_append.mp hspan with hspan | hspan
        · exact .inl (Nat.le_trans (hearlier span hspan) hle)
        · exact .inr (Nat.lt_of_lt_of_le (hsize ▸ hlt) (h.le_start span hspan))
      refine .inr (.inr ⟨by rw [hnot, hcode cell hcell], fun hcell' => ?_⟩)
      rw [hcode cell hcell] at hcell'
      exact absurd hcell' Bool.false_ne_true
    · rw [byteLength_append, hwritten]
    · exact fun span hspan => Nat.le_trans (hearlier span hspan) (Nat.le_add_right ..)
  | @code p run cs cells spans hrun hnext h ih =>
    subst hwritten
    rw [List.append_cons, grounded_append, cellChars_map_plain]
    refine ⟨grounded_run hcontent fun q hle hlt => ?_, ih hcontent.append (byteLength_append ..) ?_⟩
    · -- the bytes of the run are those of its span
      simp only [inSpans, List.any_append, List.any_cons, decide_eq_true hle, decide_eq_true hlt,
        Bool.and_self, Bool.true_or, Bool.or_true]
    · intro span hspan
      rcases List.mem_append.mp hspan with hspan | hspan
      · exact Nat.le_trans (hearlier span hspan) (Nat.le_add_right ..)
      · rw [List.mem_singleton.mp hspan]
  | standIn hfour h ih =>
    rw [List.append_cons, grounded_append, cellChars_map_other]
    refine ⟨grounded_of_forall fun q cell hcell _ _ => ?_, ih hcontent.append ?_ ?_⟩
    · -- here alone a span holds cells that are not code
      obtain ⟨d, hd, rfl⟩ := List.mem_map.mp hcell
      exact .inr (.inl ⟨rfl, hd⟩)
    · rw [byteLength_append, hwritten, hfour]
    · intro span hspan
      rcases List.mem_append.mp hspan with hspan | hspan
      · exact Nat.le_trans (hearlier span hspan) (Nat.le_add_right ..)
      · rw [List.mem_singleton.mp hspan]

/-! ### Keywords -/

/-- A cell as masking words may leave it: as it was, or with something on the same line in place of
a letter of a word. -/
def Reworded (old new : Cell) : Prop :=
  new = old ∨
    (old.inWord = true ∧ new.code = true ∧ new.char.toNat < 128 ∧ new.char ≠ '\n')

/-- What is put for a letter takes one byte, as the letter does. -/
theorem Reworded.size_eq {old new : Cell} (h : Reworded old new) :
    new.char.utf8Size = old.char.utf8Size := by
  rcases h with rfl | ⟨hword, -, hascii, -⟩
  · rfl
  · rw [Cell.inWord, Bool.and_eq_true] at hword
    rw [size_of_toNat_lt hascii, size_of_toNat_lt (ascii_of_test asciiOnly_wordByte hword.2)]

/-- A word may be exchanged for a text of the same length without line feeds. -/
theorem forall₂_reworded {old : List Cell} {new : List Char}
    (hold : ∀ cell ∈ old, cell.inWord = true) (hnew : Ascii new) (hbreak : '\n' ∉ new)
    (hlength : new.length = old.length) : List.Forall₂ Reworded old (new.map plain) := by
  induction old generalizing new with
  | nil => rw [List.length_eq_zero_iff.mp hlength]; exact .nil
  | cons cell old ih =>
    obtain ⟨c, new, rfl⟩ := List.exists_cons_of_length_eq_add_one hlength
    rw [List.mem_cons, not_or] at hbreak
    have hc : Reworded cell (plain c) :=
      .inr ⟨hold cell (List.mem_cons_self ..), rfl, hnew c (List.mem_cons_self ..),
        Ne.symm hbreak.1⟩
    exact .cons hc (ih (fun d hd => hold d (List.mem_cons_of_mem _ hd))
      (fun d hd => hnew d (List.mem_cons_of_mem _ hd)) hbreak.2 (Nat.succ.inj hlength))

/-- Masking words exchanges letters of words, one for one. -/
theorem maskFrom_reworded (before cells : List Cell) :
    ∃ new, maskFrom before cells = new.reverse ++ before ∧ List.Forall₂ Reworded cells new := by
  induction hn : cells.length using Nat.strong_induction_on generalizing before cells with
  | _ n ih =>
  subst hn
  cases cells with
  | nil => exact ⟨[], rfl, .nil⟩
  | cons cell rest =>
    -- as in the masking itself: a cell stays, or a word is masked as a whole
    by_cases hkeep : cell.inWord = false ∨ joined before = true
    · obtain ⟨new, heq, hnew⟩ := ih rest.length (Nat.lt_succ_self _) (cell :: before) rest rfl
      refine ⟨cell :: new, ?_, .cons (.inl rfl) hnew⟩
      rw [maskFrom_keep hkeep, heq, List.reverse_cons, List.append_assoc, List.singleton_append]
    · simp only [not_or, Bool.not_eq_false, Bool.not_eq_true] at hkeep
      obtain ⟨hcell, hjoined⟩ := hkeep
      obtain ⟨run, after, rfl, hrun, hafter⟩ := exists_run Cell.inWord rest
      have hwhole : ∀ c ∈ cell :: run, c.inWord = true := List.forall_mem_cons.mpr ⟨hcell, hrun⟩
      have hword : ∀ c ∈ cellChars (cell :: run), isWordByte c = true := by
        intro c hc
        obtain ⟨d, hd, rfl⟩ := List.mem_map.mp hc
        have hword := hwhole d hd
        rw [Cell.inWord, Bool.and_eq_true] at hword
        exact hword.2
      have hascii : Ascii (cellChars (cell :: run)) :=
        fun c hc => ascii_of_test asciiOnly_wordByte (hword c hc)
      obtain ⟨hlength, hmasked⟩ := maskWord_fits hascii (afterDot before)
      have hbreak := break_not_mem_maskWord hword (afterDot before)
      have hcount : (cellChars (cell :: run)).length = (cell :: run).length := List.length_map _
      rw [hcount] at hlength
      have hother : ∀ c ∈ after.head?, c.inWord ≠ true := by
        intro c hc
        rw [hafter c hc]
        exact Bool.false_ne_true
      have hsplit : maskFrom before (cell :: run ++ after) = _ :=
        maskFrom_run (List.cons_ne_nil cell run) hwhole hother
      rw [maskRun_word hcell hjoined] at hsplit
      generalize maskWord (afterDot before) (cellChars (cell :: run)) = masked at *
      obtain ⟨new, heq, hnew⟩ :=
        ih after.length (by rw [List.length_cons, List.length_append]; omega)
          ((masked.map plain).reverse ++ before) after rfl
      refine ⟨masked.map plain ++ new, ?_,
        List.rel_append (forall₂_reworded hwhole hmasked hbreak hlength) hnew⟩
      rw [← List.cons_append, hsplit, heq, List.reverse_append, List.append_assoc]

/-- Masking all words exchanges letters of words. -/
theorem maskKeywords_reworded (cells : List Cell) :
    List.Forall₂ Reworded cells (maskKeywords cells) := by
  obtain ⟨new, heq, hnew⟩ := maskFrom_reworded [] cells
  rw [maskKeywords_eq, heq, List.append_nil, List.reverse_reverse]
  exact hnew

section

variable {content : List UInt8} {spans : List Span} {p : Nat} {old new : List Cell}

/-- So it keeps the length in bytes. -/
theorem byteLength_reworded (h : List.Forall₂ Reworded old new) :
    byteLength (cellChars new) = byteLength (cellChars old) := by
  induction h with
  | nil => rfl
  | cons hcell _ ih =>
    rw [cellChars_cons, cellChars_cons, byteLength_cons, byteLength_cons, ih, hcell.size_eq]

/-- What is put for a letter of a word stands where the letter stood, in code. -/
theorem Sound.reworded {cell cell' : Cell} (h : Sound content spans p cell)
    (hcell : Reworded cell cell') : Sound content spans p cell' := by
  rcases hcell with rfl | ⟨hword, hcode, -⟩
  · exact h
  · rw [Cell.inWord, Bool.and_eq_true] at hword
    rcases h with h | ⟨h, -⟩ | ⟨hspans, hwritten⟩
    · exact absurd hword.2 (by rw [h]; decide)
    · exact absurd hword.1 (by rw [h]; decide)
    · exact .inr (.inr ⟨by rw [hspans, hword.1, hcode], fun _ => hwritten hword.1⟩)

/-- And it keeps what the marks say. -/
theorem Grounded.reworded (h : Grounded content spans p old)
    (hnew : List.Forall₂ Reworded old new) : Grounded content spans p new := by
  induction hnew generalizing p with
  | nil => trivial
  | cons hcell _ ih =>
    refine ⟨h.1.reworded hcell, ?_⟩
    rw [hcell.size_eq]
    exact ih h.2

end

end SourceAtlas.Extract.Apex.InPlace
