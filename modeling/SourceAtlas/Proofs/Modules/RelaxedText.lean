import SourceAtlas.Modules.Script
import SourceAtlas.Proofs.Json.Grammar

/-!
# Configuration files: comments and surplus commas change nothing

A configuration is read as JSON. Where that fails, it is read again without its comments and without
the commas before closing brackets. `Relaxes` says how a text may differ from a JSON text: by
comments and by one comma before a closing bracket, all of them outside string literals.

* **`eq_of_tidy`**: with anything added the text is no JSON, so the first reading fails;
* **`spaced_strict`**: the second reading finds the JSON text again, up to line feeds between
  tokens;
* **`parse?_relaxes`**: hence both texts give the same aliases.

The commas are taken out of the whole text, string literals included. So the result needs string
literals without a comma that blanks and a closing bracket follow; `parse?_commaInLiteral` is one
that is changed.
-/

namespace SourceAtlas.ScriptPaths

open Json (isWordChar startsWord isBlank IsBody IsMark IsClosing Token tokens Tidy IsShaped)

/-! ## Relaxed texts -/

/-- A comment up to the end of the line, with the line feed. -/
def lineComment (text : List Char) : List Char :=
  '/' :: '/' :: (text ++ ['\n'])

/-- A comment between its two marks. -/
def blockComment (text : List Char) : List Char :=
  '/' :: '*' :: (text ++ ['*', '/'])

/-- The text of a comment up to the end of the line. -/
def IsLineText (text : List Char) : Prop :=
  '\n' ∉ text

/-- The text of a comment between marks. -/
def IsBlockText (text : List Char) : Prop :=
  ¬ ['*', '/'] <:+: text

/-- Nothing but blanks and comments stands before a closing bracket. -/
inductive Closes : List Char → Prop where
  | bracket {c : Char} {cs : List Char} (hc : IsClosing c) : Closes (c :: cs)
  | blank {c : Char} {cs : List Char} (hc : isBlank c = true) (h : Closes cs) : Closes (c :: cs)
  | line {text cs : List Char} (htext : IsLineText text) (h : Closes cs) :
      Closes (lineComment text ++ cs)
  | block {text cs : List Char} (htext : IsBlockText text) (h : Closes cs) :
      Closes (blockComment text ++ cs)

/--
The second text is the first one with comments and surplus commas outside of string literals. The
flag says whether a word character stands before; a line comment ends in a line feed, which must not
come to stand inside a word.
-/
inductive Relaxes : Bool → List Char → List Char → Prop where
  | nil {inWord : Bool} : Relaxes inWord [] []
  | char {inWord : Bool} {c : Char} {cs ds : List Char} (hc : c ≠ '"')
      (h : Relaxes (isWordChar c) cs ds) : Relaxes inWord (c :: cs) (c :: ds)
  | text {inWord : Bool} {body cs ds : List Char} (hbody : IsBody body) (h : Relaxes false cs ds) :
      Relaxes inWord ('"' :: (body ++ '"' :: cs)) ('"' :: (body ++ '"' :: ds))
  | line {inWord : Bool} {text cs ds : List Char} (htext : IsLineText text)
      (hword : inWord = true → startsWord cs = false) (h : Relaxes inWord cs ds) :
      Relaxes inWord cs (lineComment text ++ ds)
  | block {inWord : Bool} {text cs ds : List Char} (htext : IsBlockText text)
      (h : Relaxes inWord cs ds) : Relaxes inWord cs (blockComment text ++ ds)
  | comma {inWord : Bool} {cs ds : List Char} (hcloses : Closes ds) (h : Relaxes inWord cs ds) :
      Relaxes inWord cs (',' :: ds)

/-- A comma that whitespace and a closing bracket follow. -/
def HoldsComma (body : List Char) : Prop :=
  ∃ before gap c after, body = before ++ ',' :: (gap ++ c :: after)
    ∧ (∀ g ∈ gap, Text.isWhitespace g = true) ∧ IsClosing c

/-- The text itself differs from itself by nothing. -/
theorem Relaxes.refl {inWord : Bool} {cs ds : List Char} (h : Relaxes inWord cs ds) :
    Relaxes inWord cs cs := by
  induction h with
  | nil => exact .nil
  | char hc _ ih => exact .char hc ih
  | text hbody _ ih => exact .text hbody ih
  | line _ _ _ ih => exact ih
  | block _ _ ih => exact ih
  | comma _ _ ih => exact ih

/-! ## Leaving out comments -/

/-- Outside of literals every character but a slash is kept. -/
theorem dropComments_char {c : Char} (hquote : c ≠ '"') (hslash : c ≠ '/') (cs : List Char) :
    dropComments (c :: cs) = c :: dropComments cs := by
  rw [dropComments]
  -- the other rules start with a quote or a slash
  · exact hquote
  · exact fun _ hc _ => hslash hc
  · exact fun _ hc _ => hslash hc

/-- A literal is kept as it is, up to its closing quote. -/
theorem copyString_body {body : List Char} (h : IsBody body) (cs : List Char) :
    copyString (body ++ '"' :: cs) = body ++ '"' :: dropComments cs := by
  induction h with
  | nil => rw [List.nil_append, copyString, List.nil_append]
  | plain hquote hbackslash _ ih =>
    rw [List.cons_append, copyString, ih, List.cons_append]
    · exact fun _ _ hc _ => hbackslash hc
    · exact hquote
  -- the character behind a backslash is copied with it, so that no quote there ends the literal
  | escape c _ ih =>
    rw [List.cons_append, List.cons_append, copyString, ih, List.cons_append, List.cons_append]

/-- So no comment starts in a literal. -/
theorem dropComments_text {body : List Char} (h : IsBody body) (cs : List Char) :
    dropComments ('"' :: (body ++ '"' :: cs)) = '"' :: (body ++ '"' :: dropComments cs) := by
  rw [dropComments, copyString_body h]

/-- Of a comment up to the end of the line the line feed is left. -/
theorem dropComments_lineComment {text : List Char} (h : IsLineText text) (cs : List Char) :
    dropComments (lineComment text ++ cs) = '\n' :: dropComments cs := by
  have hline : dropLine (text ++ '\n' :: cs) = '\n' :: dropComments cs := by
    induction text with
    | nil => rw [List.nil_append, dropLine]
    | cons c text ih =>
      have hc : c ≠ '\n' := fun hc => h (hc ▸ List.mem_cons_self)
      rw [List.cons_append, dropLine, ih fun hmem => h (List.mem_cons_of_mem c hmem)]
      exact hc
  unfold lineComment
  rw [List.cons_append, List.cons_append, dropComments, List.append_assoc]
  exact hline

/-- Of a comment between marks nothing is left. -/
theorem dropComments_blockComment {text : List Char} (h : IsBlockText text) (cs : List Char) :
    dropComments (blockComment text ++ cs) = dropComments cs := by
  have hblock : dropBlock (text ++ '*' :: '/' :: cs) = dropComments cs := by
    induction text with
    | nil => rw [List.nil_append, dropBlock]
    | cons c text ih =>
      have htail : IsBlockText text := fun hin => h (hin.trans (List.suffix_cons c text).isInfix)
      rw [List.cons_append, dropBlock, ih htail]
      -- the closing mark does not start here, since the text does not hold it
      rintro tail rfl heq
      cases text with
      | nil => cases heq
      | cons d text =>
        obtain ⟨rfl, -⟩ := List.cons.inj heq
        exact h ⟨[], text, rfl⟩
  unfold blockComment
  rw [List.cons_append, List.cons_append, dropComments, List.append_assoc]
  exact hblock

/-! ## Leaving out commas -/

theorem closesNext_blank {c : Char} (h : Text.isWhitespace c = true) (cs : List Char) :
    closesNext (c :: cs) = closesNext cs := by
  unfold closesNext
  rw [List.dropWhile_cons_of_pos h]

/-- What comes first and is no blank decides. -/
theorem closesNext_of_not_blank {c : Char} (h : Text.isWhitespace c = false) (cs : List Char) :
    closesNext (c :: cs) = (c == '\x7d' || c == ']') := by
  unfold closesNext
  rw [List.dropWhile_cons_of_neg (by simp [h])]
  rfl

theorem isClosing_of_closesNext {c : Char} (h : Text.isWhitespace c = false) {cs : List Char}
    (hcloses : closesNext (c :: cs) = true) : IsClosing c := by
  rw [closesNext_of_not_blank h] at hcloses
  simp only [Bool.or_eq_true, beq_iff_eq] at hcloses
  exact hcloses.symm

/-- A quote is no closing bracket, and nothing is seen beyond it. -/
theorem closesNext_append_quote (cs ds : List Char) :
    closesNext (cs ++ '"' :: ds) = closesNext cs := by
  induction cs with
  | nil => exact closesNext_of_not_blank (by decide) ds
  | cons c cs ih =>
    rw [List.cons_append]
    by_cases hc : Text.isWhitespace c = true
    · rw [closesNext_blank hc, closesNext_blank hc, ih]
    · rw [closesNext_of_not_blank (by simpa using hc), closesNext_of_not_blank (by simpa using hc)]

/-- No comma is judged by what stands beyond a quote. -/
theorem dropCommas_append_quote (cs ds : List Char) :
    dropCommas (cs ++ '"' :: ds) = dropCommas cs ++ '"' :: dropCommas ds := by
  induction cs with
  | nil => rfl
  | cons c cs ih =>
    rw [List.cons_append, dropCommas, dropCommas, closesNext_append_quote, ih]
    split
    · rfl
    · rfl

theorem dropCommas_char {c : Char} (h : c ≠ ',') (cs : List Char) :
    dropCommas (c :: cs) = c :: dropCommas cs := by
  rw [dropCommas, if_neg (by simp [h])]

/-- Only whitespace stands before a bracket that closes next. -/
theorem exists_of_closesNext {cs : List Char} (h : closesNext cs = true) :
    ∃ gap c after, cs = gap ++ c :: after ∧ (∀ g ∈ gap, Text.isWhitespace g = true)
      ∧ IsClosing c := by
  induction cs with
  | nil => cases h
  | cons c cs ih =>
    by_cases hc : Text.isWhitespace c = true
    · rw [closesNext_blank hc] at h
      obtain ⟨gap, d, after, rfl, hgap, hd⟩ := ih h
      refine ⟨c :: gap, d, after, rfl, ?_, hd⟩
      exact List.forall_mem_cons.mpr ⟨hc, hgap⟩
    · have hclosing := isClosing_of_closesNext (by simpa using hc) h
      exact ⟨[], c, cs, rfl, List.forall_mem_nil _, hclosing⟩

/-- A literal without such a comma is kept. -/
theorem dropCommas_of_not_holdsComma {body : List Char} (h : ¬ HoldsComma body) :
    dropCommas body = body := by
  induction body with
  | nil => rfl
  | cons c body ih =>
    have htail : ¬ HoldsComma body := by
      rintro ⟨before, gap, d, after, rfl, hgap⟩
      exact h ⟨c :: before, gap, d, after, rfl, hgap⟩
    rw [dropCommas, if_neg, ih htail]
    -- a comma that is left out would be one
    intro hcond
    obtain ⟨hcomma, hcloses⟩ := Bool.and_eq_true_iff.mp hcond
    obtain ⟨gap, d, after, rfl, hgap⟩ := exists_of_closesNext hcloses
    exact h ⟨[], gap, d, after, by rw [eq_of_beq hcomma]; rfl, hgap⟩

/-! ## Line feeds between tokens -/

/-- The second text is the first one with blanks between its tokens. -/
inductive Spaced : Bool → List Char → List Char → Prop where
  | nil {inWord : Bool} : Spaced inWord [] []
  | char {inWord : Bool} {c : Char} {cs ds : List Char} (hc : c ≠ '"')
      (h : Spaced (isWordChar c) cs ds) : Spaced inWord (c :: cs) (c :: ds)
  | text {inWord : Bool} {body cs ds : List Char} (hbody : IsBody body) (h : Spaced false cs ds) :
      Spaced inWord ('"' :: (body ++ '"' :: cs)) ('"' :: (body ++ '"' :: ds))
  | blank {inWord : Bool} {c : Char} {cs ds : List Char} (hc : isBlank c = true)
      (hword : inWord = true → startsWord cs = false) (h : Spaced inWord cs ds) :
      Spaced inWord cs (c :: ds)

/-- The character at the front of a text is a blank, part of a word, or a mark. -/
theorem tokens_char {c : Char} (hc : c ≠ '"') (cs : List Char) :
    isBlank c = true ∧ tokens (c :: cs) = tokens cs
      ∨ isWordChar c = true ∧ tokens (c :: cs) =
        (if startsWord cs then Json.joinWord c (tokens cs) else .word [c] :: tokens cs)
      ∨ IsMark c ∧ tokens (c :: cs) = .mark c :: tokens cs := by
  by_cases hblank : isBlank c = true
  · exact Or.inl ⟨hblank, Json.tokens_blank hblank cs⟩
  · by_cases hword : isWordChar c = true
    · exact Or.inr (Or.inl ⟨hword, Json.tokens_wordChar hword cs⟩)
    · have hmark : IsMark c := ⟨hc, by simpa using hblank, by simpa using hword⟩
      exact Or.inr (Or.inr ⟨hmark, Json.tokens_mark hmark cs⟩)

/-- Blanks between the tokens do not change them, nor what continues a word. -/
theorem tokens_spaced {inWord : Bool} {cs ds : List Char} (h : Spaced inWord cs ds) :
    tokens ds = tokens cs ∧ (inWord = true → startsWord ds = startsWord cs) := by
  induction h with
  | nil => exact ⟨rfl, fun _ => rfl⟩
  | @char _ c cs ds hc _ ih =>
    refine ⟨?_, fun _ => rfl⟩
    rcases tokens_char hc ds with ⟨hblank, hds⟩ | ⟨hword, hds⟩ | ⟨hmark, hds⟩
    · rw [hds, Json.tokens_blank hblank, ih.1]
    · rw [hds, Json.tokens_wordChar hword, ih.1, ih.2 hword]
    · rw [hds, Json.tokens_mark hmark, ih.1]
  | text hbody _ ih =>
    refine ⟨?_, fun _ => rfl⟩
    rw [Json.tokens_text hbody, Json.tokens_text hbody, ih.1]
  | @blank inWord c cs ds hc hword _ ih =>
    refine ⟨(Json.tokens_blank hc ds).trans ih.1, fun hin => ?_⟩
    -- the blank stands where no word goes on, and it does not start one
    have hnot : isWordChar c = false := by
      by_contra hc'
      rw [Json.isBlank_of_isWordChar (by simpa using hc')] at hc
      cases hc
    rw [hword hin]
    exact hnot

/-! ## Texts that are read at once -/

/-- A text that starts with a word has it for its first token. -/
theorem tokens_of_startsWord {cs : List Char} (h : startsWord cs = true) :
    ∃ w ts, tokens cs = .word w :: ts := by
  cases cs with
  | nil => cases h
  | cons c cs =>
    rw [Json.tokens_wordChar (show isWordChar c = true from h)]
    split
    · unfold Json.joinWord
      split
      · exact ⟨_, _, rfl⟩
      · exact ⟨_, _, rfl⟩
    · exact ⟨_, _, rfl⟩

/-- A character in front adds a token, or it makes the word at the front longer. -/
theorem tokens_char_eq {c : Char} (hc : c ≠ '"') (cs : List Char) :
    (∃ front, tokens (c :: cs) = front ++ tokens cs)
      ∨ ∃ w ts, tokens cs = .word w :: ts ∧ tokens (c :: cs) = .word (c :: w) :: ts := by
  rcases tokens_char hc cs with ⟨-, heq⟩ | ⟨-, heq⟩ | ⟨-, heq⟩
  · exact Or.inl ⟨[], heq⟩
  · by_cases hword : startsWord cs = true
    · obtain ⟨w, ts, htokens⟩ := tokens_of_startsWord hword
      refine Or.inr ⟨w, ts, htokens, ?_⟩
      rw [heq, if_pos hword, htokens]
      rfl
    · exact Or.inl ⟨[.word [c]], by rw [heq, if_neg hword]; rfl⟩
  · exact Or.inl ⟨[.mark c], heq⟩

/-- The tokens behind others are tidy if all are. -/
theorem tidy_of_append {ts us : List Token} (h : Tidy (ts ++ us)) : Tidy us :=
  ⟨fun c hc => h.marks c (List.mem_append_right ts hc), h.separated.right_of_append⟩

/-- Without its first character a tidy text is tidy. -/
theorem tidy_of_char {c : Char} (hc : c ≠ '"') {cs : List Char} (h : Tidy (tokens (c :: cs))) :
    Tidy (tokens cs) := by
  rcases tokens_char_eq hc cs with ⟨front, heq⟩ | ⟨w, ts, hcs, heq⟩
  · rw [heq] at h
    exact tidy_of_append h
  · rw [heq] at h
    rw [hcs]
    -- the word that was cut is still a word, and words are not asked for anything
    refine h.of_cons.cons (fun d hd => by cases hd) fun u _ => ?_
    exact fun hcomma => by cases hcomma

/-- Nor does a literal in front matter. -/
theorem tidy_of_text {body : List Char} (hbody : IsBody body) {cs : List Char}
    (h : Tidy (tokens ('"' :: (body ++ '"' :: cs)))) : Tidy (tokens cs) := by
  rw [Json.tokens_text hbody] at h
  exact h.of_cons

/-- No mark of a tidy text starts a comment. -/
theorem ne_slash_of_tidy {c : Char} {cs : List Char} (h : Tidy (tokens (c :: cs))) : c ≠ '/' := by
  rintro rfl
  rw [Json.tokens_mark (by decide)] at h
  exact absurd (h.marks '/' List.mem_cons_self) (by decide)

/-- What stands before a closing bracket is a closing bracket or a comment. -/
theorem tokens_of_closes {cs : List Char} (h : Closes cs) :
    ∃ c ts, tokens cs = .mark c :: ts ∧ (IsClosing c ∨ c = '/') := by
  induction h with
  | @bracket c cs hc =>
    have hmark : IsMark c := by rcases hc with rfl | rfl <;> decide
    exact ⟨c, tokens cs, Json.tokens_mark hmark cs, Or.inl hc⟩
  | blank hc _ ih =>
    rw [Json.tokens_blank hc]
    exact ih
  | line htext _ ih => exact ⟨'/', _, Json.tokens_mark (by decide) _, Or.inr rfl⟩
  | block htext _ ih => exact ⟨'/', _, Json.tokens_mark (by decide) _, Or.inr rfl⟩

/-- **With anything added a text is not tidy any more.** -/
theorem eq_of_tidy {inWord : Bool} {cs ds : List Char} (h : Relaxes inWord cs ds)
    (htidy : Tidy (tokens ds)) : ds = cs := by
  induction h with
  | nil => rfl
  | char hc _ ih => rw [ih (tidy_of_char hc htidy)]
  | text hbody _ ih => rw [ih (tidy_of_text hbody htidy)]
  | line => exact absurd rfl (ne_slash_of_tidy htidy)
  | block => exact absurd rfl (ne_slash_of_tidy htidy)
  | comma hcloses _ _ =>
    obtain ⟨c, ts, htokens, hc⟩ := tokens_of_closes hcloses
    rw [Json.tokens_mark (by decide), htokens] at htidy
    -- rfl | a tidy text has no comma before a closing bracket, and no slash
    rcases hc with hc | rfl
    · have hseparated := List.isChain_cons.mp htidy.separated
      exact absurd rfl (hseparated.1 (.mark c) rfl rfl c hc)
    · exact absurd (htidy.of_cons.marks '/' List.mem_cons_self) (by decide)

/-! ## Texts that are read again -/

/-- Tidy tokens with string literals that lose no comma. -/
structure Keeps (ts : List Token) : Prop extends Tidy ts where
  bodies : ∀ body, Token.text body ∈ ts → dropCommas body = body

/-- Without its first character a text keeps its commas. -/
theorem Keeps.of_char {c : Char} (hc : c ≠ '"') {cs : List Char} (h : Keeps (tokens (c :: cs))) :
    Keeps (tokens cs) := by
  refine ⟨tidy_of_char hc h.toTidy, fun body hbody => h.bodies body ?_⟩
  rcases tokens_char_eq hc cs with ⟨front, heq⟩ | ⟨w, ts, hcs, heq⟩
  · rw [heq]
    exact List.mem_append_right front hbody
  · rw [hcs] at hbody
    rw [heq]
    rcases List.mem_cons.mp hbody with hword | hmem
    · cases hword
    · exact List.mem_cons_of_mem _ hmem

/-- The blanks of JSON are whitespace. -/
theorem isWhitespace_of_isBlank {c : Char} (h : isBlank c = true) : Text.isWhitespace c = true := by
  simp only [isBlank, Bool.or_eq_true, beq_iff_eq] at h
  rcases h with ((rfl | rfl) | rfl) | rfl <;> decide

/-- The characters of words are not. -/
theorem isWhitespace_of_isWordChar {c : Char} (h : isWordChar c = true) :
    Text.isWhitespace c = false := by
  -- the blanks of ASCII all come before its other characters
  have hall : ∀ n < 128, 33 ≤ n → Text.memBoundaries Text.whitespace n = false := by decide
  have hrange : ∀ {low high : Char}, (decide (low ≤ c) && decide (c ≤ high)) = true →
      33 ≤ low.toNat → high.toNat < 128 → Text.isWhitespace c = false := by
    intro low high hc hlow hhigh
    simp only [Bool.and_eq_true, decide_eq_true_eq] at hc
    have hfirst : low.toNat ≤ c.toNat := hc.1
    have hlast : c.toNat ≤ high.toNat := hc.2
    exact hall c.toNat (by omega) (by omega)
  simp only [isWordChar, Text.isAsciiLetter, Text.isAsciiDigit, Bool.or_eq_true, beq_iff_eq] at h
  rcases h with (((((h | h) | h) | rfl) | rfl) | rfl)
  · exact hrange h (by decide) (by decide)
  · exact hrange h (by decide) (by decide)
  · exact hrange h (by decide) (by decide)
  · decide
  · decide
  · decide

/-- A blank does not change what closes next. -/
theorem closesNext_of_isBlank {c : Char} (h : isBlank c = true) (cs : List Char) :
    closesNext (dropComments (c :: cs)) = closesNext (dropComments cs) := by
  have hquote : c ≠ '"' := by
    rintro rfl
    cases h
  have hslash : c ≠ '/' := by
    rintro rfl
    cases h
  rw [dropComments_char hquote hslash, closesNext_blank (isWhitespace_of_isBlank h)]

/-- A comma before a closing bracket still stands there without the comments. -/
theorem closesNext_of_closes {cs : List Char} (h : Closes cs) :
    closesNext (dropComments cs) = true := by
  induction h with
  | bracket hc =>
    rw [dropComments_char, closesNext_of_not_blank]
    · rcases hc with rfl | rfl <;> rfl
    · rcases hc with rfl | rfl <;> decide
    · rcases hc with rfl | rfl <;> decide
    · rcases hc with rfl | rfl <;> decide
  | blank hc _ ih => rw [closesNext_of_isBlank hc, ih]
  | line htext _ ih => rw [dropComments_lineComment htext, closesNext_blank (by decide), ih]
  | block htext _ ih => rw [dropComments_blockComment htext, ih]

/-- A closing bracket that comes next without the comments comes next in the JSON text. -/
theorem tokens_of_closesNext {inWord : Bool} {cs ds : List Char} (h : Relaxes inWord cs ds)
    (htidy : Tidy (tokens cs)) (hcloses : closesNext (dropComments ds) = true) :
    ∃ c ts, IsClosing c ∧ tokens cs = .mark c :: ts := by
  induction h with
  | nil => cases hcloses
  | @char inWord c cs ds hc h ih =>
    rcases tokens_char hc cs with ⟨hblank, heq⟩ | ⟨hword, -⟩ | ⟨hmark, heq⟩
    · rw [closesNext_of_isBlank hblank] at hcloses
      rw [heq]
      exact ih (tidy_of_char hc htidy) hcloses
    · rw [dropComments_char hc (ne_slash_of_tidy htidy)] at hcloses
      -- a closing bracket is no part of a word
      have hclosing := isClosing_of_closesNext (isWhitespace_of_isWordChar hword) hcloses
      rcases hclosing with rfl | rfl <;> cases hword
    · have hblank : Text.isWhitespace c = false := by
        have hmem := htidy.marks c (heq ▸ List.mem_cons_self)
        simp only [List.mem_cons, List.not_mem_nil, or_false] at hmem
        rcases hmem with rfl | rfl | rfl | rfl | rfl | rfl <;> decide
      rw [dropComments_char hc (ne_slash_of_tidy htidy)] at hcloses
      exact ⟨c, tokens cs, isClosing_of_closesNext hblank hcloses, heq⟩
  | text hbody =>
    rw [dropComments_text hbody, closesNext_of_not_blank (by decide)] at hcloses
    cases hcloses
  | line htext _ _ ih =>
    rw [dropComments_lineComment htext, closesNext_blank (by decide)] at hcloses
    exact ih htidy hcloses
  | block htext _ ih =>
    rw [dropComments_blockComment htext] at hcloses
    exact ih htidy hcloses
  | comma =>
    rw [dropComments_char (by decide) (by decide), closesNext_of_not_blank (by decide)] at hcloses
    cases hcloses

/--
**Without comments and surplus commas the JSON text is left**, up to blanks between its tokens.
-/
theorem spaced_strict {inWord : Bool} {cs ds : List Char} (h : Relaxes inWord cs ds)
    (hkeeps : Keeps (tokens cs)) : Spaced inWord cs (strict ds) := by
  unfold strict
  induction h with
  | nil => exact .nil
  | @char inWord c cs ds hc h ih =>
    have hrest := ih (hkeeps.of_char hc)
    rw [dropComments_char hc (ne_slash_of_tidy hkeeps.toTidy)]
    by_cases hcomma : c = ','
    · subst hcomma
      -- a comma of the JSON text is not the last one before a bracket
      have hstays : ¬ closesNext (dropComments ds) = true := by
        intro hcloses
        obtain ⟨d, ts, hd, htokens⟩ :=
          tokens_of_closesNext h (tidy_of_char hc hkeeps.toTidy) hcloses
        have hseparated := hkeeps.separated
        rw [Json.tokens_mark (by decide), htokens] at hseparated
        exact absurd rfl ((List.isChain_cons.mp hseparated).1 (.mark d) rfl rfl d hd)
      rw [dropCommas, if_neg (by simp [hstays])]
      exact .char hc hrest
    · rw [dropCommas_char hcomma]
      exact .char hc hrest
  | @text inWord body cs ds hbody h ih =>
    have htokens := Json.tokens_text hbody cs
    -- the commas of a literal are judged like all others, so they have to be kept
    have hbodies : dropCommas body = body :=
      hkeeps.bodies body (htokens ▸ List.mem_cons_self)
    have hrest : Keeps (tokens cs) := by
      refine ⟨tidy_of_text hbody hkeeps.toTidy, fun other hmem => hkeeps.bodies other ?_⟩
      rw [htokens]
      exact List.mem_cons_of_mem _ hmem
    rw [dropComments_text hbody, dropCommas_char (by decide), dropCommas_append_quote, hbodies]
    exact .text hbody (ih hrest)
  | line htext hword _ ih =>
    rw [dropComments_lineComment htext, dropCommas_char (by decide)]
    exact .blank (by decide) hword (ih hkeeps)
  | block htext _ ih =>
    rw [dropComments_blockComment htext]
    exact ih hkeeps
  | comma hcloses _ ih =>
    rw [dropComments_char (by decide) (by decide), dropCommas,
      if_pos (by simp [closesNext_of_closes hcloses])]
    exact ih hkeeps

/-- What is left gives the value of the JSON text. -/
theorem readChars?_strict {cs ds : List Char} (h : Relaxes false cs ds)
    (hkeeps : Keeps (tokens cs)) : Json.readChars? (strict ds) = Json.readChars? cs :=
  Json.readChars?_congr (tokens_spaced (spaced_strict h hkeeps)).1

/-- A relaxed text is read as the JSON text that it comes from. -/
theorem readRelaxed?_relaxes {text relaxed : String} (hshaped : IsShaped text.toList)
    (hrelaxes : Relaxes false text.toList relaxed.toList)
    (hkept : ∀ body, Token.text body ∈ tokens text.toList → ¬ HoldsComma body) :
    readRelaxed? relaxed = readRelaxed? text := by
  have hkeeps : Keeps (tokens text.toList) :=
    ⟨hshaped.tidy, fun body hbody => dropCommas_of_not_holdsComma (hkept body hbody)⟩
  -- the JSON text itself is read at once, or it is not read the second time either
  have htext : readRelaxed? text = Json.readChars? text.toList := by
    unfold readRelaxed?
    rw [readChars?_strict hrelaxes.refl hkeeps, Option.or_self]
  rw [htext]
  unfold readRelaxed?
  rw [readChars?_strict hrelaxes hkeeps]
  cases hread : Json.readChars? relaxed.toList with
  | none => rfl
  | some v =>
    -- what is read at once has nothing added
    rw [← eq_of_tidy hrelaxes (Json.isShaped_of_readChars? hread).tidy, hread]
    rfl

/--
**Comments and surplus commas change nothing.** A text that differs from a JSON text by comments and
by commas before closing brackets gives the same aliases, in every directory, if no string literal
holds a comma that whitespace and a closing bracket follow.
-/
theorem parse?_relaxes (dir text relaxed : String) (hshaped : IsShaped text.toList)
    (hrelaxes : Relaxes false text.toList relaxed.toList)
    (hkept : ∀ body, Token.text body ∈ tokens text.toList → ¬ HoldsComma body) :
    parse? dir relaxed = parse? dir text := by
  unfold parse?
  rw [readRelaxed?_relaxes hshaped hrelaxes hkept]

/-- Without quotes and backslashes any text can stand in a literal. -/
theorem isBody_of_all {body : List Char}
    (h : body.all (fun c => c != '"' && c != '\\') = true) : IsBody body := by
  induction body with
  | nil => exact .nil
  | cons c body ih =>
    rw [List.all_cons, Bool.and_eq_true, Bool.and_eq_true] at h
    exact .plain (by simpa using h.1.1) (by simpa using h.1.2) (ih h.2)

/-- A literal with slashes, a comma and a comment before a brace, and a comment behind it. -/
theorem parse?_relaxes_comments :
    let text := "\x7b\"compilerOptions\":\x7b\"baseUrl\":\"a//b\"\x7d\x7d"
    let relaxed := "\x7b\"compilerOptions\":\x7b\"baseUrl\":\"a//b\",/*c*/\x7d//d\n\x7d"
    IsShaped text.toList ∧ Relaxes false text.toList relaxed.toList
      ∧ (∀ body, Token.text body ∈ tokens text.toList → ¬ HoldsComma body)
      ∧ parse? "" relaxed = parse? "" text
      ∧ parse? "" text = some { baseUrl := some "a/b" } := by
  intro text relaxed
  have hshaped : IsShaped text.toList := by
    have hread : (Json.readChars? text.toList).isSome = true := by decide +kernel
    obtain ⟨v, hv⟩ := Option.isSome_iff_exists.mp hread
    exact Json.isShaped_of_readChars? hv
  have hrelaxes : Relaxes false text.toList relaxed.toList := by
    have htext : text.toList = '\x7b' :: '"' :: ("compilerOptions".toList ++ '"' :: ':' :: '\x7b' ::
        '"' :: ("baseUrl".toList ++ '"' :: ':' :: '"' :: ("a//b".toList ++ '"' ::
          '\x7d' :: ['\x7d']))) := by decide +kernel
    have hrelaxed :
        relaxed.toList = '\x7b' :: '"' :: ("compilerOptions".toList ++ '"' :: ':' :: '\x7b' ::
        '"' :: ("baseUrl".toList ++ '"' :: ':' :: '"' :: ("a//b".toList ++ '"' ::
          ',' :: (blockComment ['c'] ++ '\x7d' :: (lineComment ['d'] ++ ['\x7d']))))) := by
      decide +kernel
    have hc : IsBlockText ['c'] := by
      intro h
      exact absurd h.length_le (by decide)
    have hd : IsLineText ['d'] := by
      unfold IsLineText
      decide
    rw [htext, hrelaxed]
    refine .char (by decide) (.text (isBody_of_all (by decide)) (.char (by decide)
      (.char (by decide) (.text (isBody_of_all (by decide)) (.char (by decide)
        (.text (isBody_of_all (by decide)) ?_))))))
    exact .comma (.block hc (.bracket (by decide)))
      (.block hc (.char (by decide) (.line hd (by decide) (.char (by decide) .nil))))
  have hkept : ∀ body, Token.text body ∈ tokens text.toList → ¬ HoldsComma body := by
    have htokens : tokens text.toList = [.mark '\x7b', .text "compilerOptions".toList, .mark ':',
        .mark '\x7b', .text "baseUrl".toList, .mark ':', .text "a//b".toList, .mark '\x7d',
        .mark '\x7d'] := by decide +kernel
    intro body hbody hholds
    obtain ⟨before, gap, c, after, hbefore, -⟩ := hholds
    -- no literal of the text holds a comma at all
    have hcomma : ',' ∈ body := by
      rw [hbefore]
      exact List.mem_append_right before List.mem_cons_self
    simp only [htokens, List.mem_cons, List.not_mem_nil, or_false, Token.text.injEq, reduceCtorEq,
      false_or] at hbody
    rcases hbody with rfl | rfl | rfl <;> exact absurd hcomma (by decide)
  exact ⟨hshaped, hrelaxes, hkept, parse?_relaxes "" text relaxed hshaped hrelaxes hkept,
    by decide +kernel⟩

/--
**A comma in a string literal can get lost.** The pattern is another one as soon as a comment makes
the text be read again.
-/
theorem parse?_commaInLiteral :
    let text := "\x7b\"compilerOptions\":\x7b\"paths\":\x7b\"a,]\":[\"x\"]\x7d\x7d\x7d"
    let relaxed := "\x7b\"compilerOptions\":\x7b\"paths\":\x7b\"a,]\":[\"x\"]\x7d\x7d\x7d/**/"
    IsShaped text.toList ∧ Relaxes false text.toList relaxed.toList
      ∧ parse? "" text = some { aliases := [("a,]", ["x"])] }
      ∧ parse? "" relaxed = some { aliases := [("a]", ["x"])] } := by
  intro text relaxed
  have hshaped : IsShaped text.toList := by
    have hread : (Json.readChars? text.toList).isSome = true := by decide +kernel
    obtain ⟨v, hv⟩ := Option.isSome_iff_exists.mp hread
    exact Json.isShaped_of_readChars? hv
  refine ⟨hshaped, ?_, by decide +kernel, by decide +kernel⟩
  have htext : text.toList = '\x7b' :: '"' :: ("compilerOptions".toList ++ '"' :: ':' :: '\x7b' ::
      '"' :: ("paths".toList ++ '"' :: ':' :: '\x7b' :: '"' :: ("a,]".toList ++ '"' :: ':' :: '[' ::
        '"' :: ("x".toList ++ '"' :: ']' :: '\x7d' :: '\x7d' :: ['\x7d'])))) := by decide +kernel
  have hrelaxed :
      relaxed.toList = '\x7b' :: '"' :: ("compilerOptions".toList ++ '"' :: ':' :: '\x7b' ::
      '"' :: ("paths".toList ++ '"' :: ':' :: '\x7b' :: '"' :: ("a,]".toList ++ '"' :: ':' :: '[' ::
        '"' :: ("x".toList ++ '"' :: ']' :: '\x7d' :: '\x7d' :: '\x7d' ::
          (blockComment [] ++ []))))) := by
    decide +kernel
  have hblock : IsBlockText [] := by
    intro h
    exact absurd h.length_le (by decide)
  rw [htext, hrelaxed]
  refine .char (by decide) (.text (isBody_of_all (by decide)) (.char (by decide)
    (.char (by decide) (.text (isBody_of_all (by decide)) (.char (by decide) (.char (by decide)
      (.text (isBody_of_all (by decide)) ?_)))))))
  refine .char (by decide) (.char (by decide) (.text (isBody_of_all (by decide)) ?_))
  exact .char (by decide) (.char (by decide) (.char (by decide) (.char (by decide)
    (.block hblock .nil))))

end SourceAtlas.ScriptPaths
