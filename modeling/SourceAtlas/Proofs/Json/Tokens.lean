import SourceAtlas.Json.Read
import SourceAtlas.Proofs.Json.RoundTrip
import SourceAtlas.Proofs.Text.Digits
import Mathlib.Data.List.TakeWhile

/-!
# JSON text: tokens

A text is a sequence of tokens: marks, string literals and words, where a word is a number or one of
`null`, `true` and `false`. Blanks only keep words apart (`tokens_skipBlank`).

The reader works on characters and never asks where a token ends. All the same it treats the tokens
as units. A literal is read up to its closing quote, and its value comes from what stands between
the quotes (`readsBody_of_readStringBody`, `readStringBody_append`). Of a word the reader may take a
part only; what it takes does not depend on what stands after the word (`readScalar_append_word`),
and what it leaves is the end of the word (`readScalar_suffix`).
-/

namespace SourceAtlas.Json

/-! ## Tokens -/

/-- The characters of numbers and of the words `null`, `true` and `false`. -/
def isWordChar (c : Char) : Bool :=
  Text.isAsciiLetter c || Text.isAsciiDigit c || c == '+' || c == '-' || c == '.'

/-- Whether a text goes on with a word. -/
def startsWord (cs : List Char) : Bool :=
  cs.head?.any isWordChar

inductive Token where
  /-- A character that stands for itself. -/
  | mark (c : Char)
  /-- A string literal, as written between its quotes. -/
  | text (body : List Char)
  | word (cs : List Char)
  /-- A string literal that the text ends in. -/
  | unclosed
  deriving DecidableEq, Repr

/-- Puts a character in front of the word at the start. -/
def joinWord (c : Char) : List Token → List Token
  | .word w :: ts => .word (c :: w) :: ts
  | ts => .word [c] :: ts

mutual

def tokens : List Char → List Token
  | [] => []
  | '"' :: rest => textTokens [] rest
  | c :: rest =>
    if isBlank c then tokens rest
    else if isWordChar c then
      if startsWord rest then joinWord c (tokens rest) else .word [c] :: tokens rest
    else .mark c :: tokens rest

/-- The tokens from inside a string literal; `read` holds what of it stands before, last first. -/
def textTokens (read : List Char) : List Char → List Token
  | [] => [.unclosed]
  | '\\' :: c :: rest => textTokens (c :: '\\' :: read) rest
  | '"' :: rest => .text read.reverse :: tokens rest
  | c :: rest => textTokens (c :: read) rest

end

/-- What can stand between the quotes of a string literal: every quote is behind a backslash. -/
inductive IsBody : List Char → Prop where
  | nil : IsBody []
  | plain {c : Char} {body : List Char} (hquote : c ≠ '"') (hbackslash : c ≠ '\\')
      (h : IsBody body) : IsBody (c :: body)
  | escape {body : List Char} (c : Char) (h : IsBody body) : IsBody ('\\' :: c :: body)

/-- Splits the text after an opening quote at the closing one. -/
def splitText? : List Char → Option (List Char × List Char)
  | [] => none
  | '\\' :: c :: rest => (splitText? rest).map fun p => ('\\' :: c :: p.1, p.2)
  | '"' :: rest => some ([], rest)
  | c :: rest => (splitText? rest).map fun p => (c :: p.1, p.2)

/-- A literal is cut at its closing quote. -/
theorem splitText?_append {body : List Char} (h : IsBody body) (rest : List Char) :
    splitText? (body ++ '"' :: rest) = some (body, rest) := by
  induction h with
  | nil => rfl
  | plain hquote hbackslash _ ih =>
    rw [List.cons_append, splitText?, ih]
    · rfl
    · exact fun _ _ hc _ => hbackslash hc
    · exact hquote
  | escape c _ ih =>
    rw [List.cons_append, List.cons_append, splitText?, ih]
    rfl

/-- What is cut off before a closing quote is a body. -/
theorem isBody_of_splitText? {cs body rest : List Char} (h : splitText? cs = some (body, rest)) :
    IsBody body ∧ cs = body ++ '"' :: rest := by
  fun_induction splitText? cs generalizing body with
  | case1 => cases h
  | case2 c tail ih =>
    obtain ⟨p, hp, heq⟩ := Option.map_eq_some_iff.mp h
    obtain ⟨rfl, rfl⟩ := Prod.mk.inj heq
    obtain ⟨hbody, rfl⟩ := ih hp
    exact ⟨.escape c hbody, rfl⟩
  | case3 tail =>
    obtain ⟨rfl, rfl⟩ := Prod.mk.inj (Option.some.inj h)
    exact ⟨.nil, rfl⟩
  | case4 c tail hbackslash hquote ih =>
    obtain ⟨p, hp, heq⟩ := Option.map_eq_some_iff.mp h
    obtain ⟨rfl, rfl⟩ := Prod.mk.inj heq
    obtain ⟨hbody, rfl⟩ := ih hp
    refine ⟨.plain hquote (fun hc => ?_) hbody, rfl⟩
    -- a backslash has the closing quote after it at least, so it is no plain character
    obtain ⟨d, ds, hds⟩ := List.exists_cons_of_ne_nil (l := p.1 ++ '"' :: p.2) (by simp)
    exact hbackslash d ds hc hds

/-- The tokens from inside a literal: the literal, and the tokens behind its quote. -/
theorem textTokens_eq (read cs : List Char) :
    textTokens read cs = (splitText? cs).elim [.unclosed] fun p =>
      .text (read.reverse ++ p.1) :: tokens p.2 := by
  fun_induction splitText? cs generalizing read with
  | case1 => rw [textTokens]; rfl
  | case2 c tail ih =>
    rw [textTokens, ih]
    cases splitText? tail <;> simp
  | case3 tail => rw [textTokens]; simp
  | case4 c tail hbackslash hquote ih =>
    rw [textTokens, ih]
    · cases splitText? tail <;> simp
    · exact hbackslash
    · exact hquote

theorem tokens_blank {c : Char} (h : isBlank c = true) (rest : List Char) :
    tokens (c :: rest) = tokens rest := by
  have hquote : c ≠ '"' := by
    rintro rfl
    cases h
  rw [tokens, if_pos h]
  exact hquote

/-- Blanks in front are no tokens. -/
theorem tokens_skipBlank (cs : List Char) : tokens (skipBlank cs) = tokens cs := by
  induction cs with
  | nil => rfl
  | cons c cs ih =>
    by_cases hc : isBlank c = true
    · rw [tokens_blank hc, ← ih]
      exact congrArg tokens (List.dropWhile_cons_of_pos hc)
    · rw [skipBlank_of_not_blank (by simpa using hc)]

theorem isBlank_of_isWordChar {c : Char} (h : isWordChar c = true) : isBlank c = false := by
  by_contra hc
  simp only [isBlank, Bool.not_eq_false, Bool.or_eq_true, beq_iff_eq] at hc
  rcases hc with ((rfl | rfl) | rfl) | rfl <;> exact absurd h (by decide)

/-- A character that is a token by itself. -/
def IsMark (c : Char) : Prop :=
  c ≠ '"' ∧ isBlank c = false ∧ isWordChar c = false

instance (c : Char) : Decidable (IsMark c) :=
  inferInstanceAs (Decidable (_ ∧ _ ∧ _))

/-- A mark is a token, whatever follows. -/
theorem tokens_mark {c : Char} (h : IsMark c) (rest : List Char) :
    tokens (c :: rest) = .mark c :: tokens rest := by
  rw [tokens, if_neg (by simp [h.2.1]), if_neg (by simp [h.2.2])]
  exact h.1

/-- A character of a word joins the word after it, if one goes on there. -/
theorem tokens_wordChar {c : Char} (h : isWordChar c = true) (rest : List Char) :
    tokens (c :: rest) =
      if startsWord rest then joinWord c (tokens rest) else .word [c] :: tokens rest := by
  have hquote : c ≠ '"' := by
    rintro rfl
    cases h
  rw [tokens, if_neg (by simp [isBlank_of_isWordChar h]), if_pos h]
  exact hquote

/-- A word is one token, up to where it ends. -/
theorem tokens_word {w rest : List Char} (hw : ∀ c ∈ w, isWordChar c = true) (hne : w ≠ [])
    (hrest : startsWord rest = false) : tokens (w ++ rest) = .word w :: tokens rest := by
  induction w with
  | nil => exact absurd rfl hne
  | cons c w ih =>
    rw [List.cons_append, tokens_wordChar (hw c List.mem_cons_self)]
    cases w with
    | nil => rw [List.nil_append, hrest, if_neg (by simp)]
    | cons d w =>
      -- the rest of the word is one by the induction, and the character joins it
      have hd : startsWord (d :: w ++ rest) = true :=
        hw d (List.mem_cons_of_mem c List.mem_cons_self)
      rw [if_pos hd, ih (fun e he => hw e (List.mem_cons_of_mem c he)) (List.cons_ne_nil d w)]
      rfl

/-- A literal is a token, whatever follows. -/
theorem tokens_text {body : List Char} (h : IsBody body) (rest : List Char) :
    tokens ('"' :: (body ++ '"' :: rest)) = .text body :: tokens rest := by
  rw [tokens, textTokens_eq, splitText?_append h]
  rfl

/-- A text without blanks in front starts with a token. -/
inductive Lexes : List Char → Token → List Char → Prop where
  | mark {c : Char} {rest : List Char} (h : IsMark c) : Lexes (c :: rest) (.mark c) rest
  | text {body rest : List Char} (h : IsBody body) :
      Lexes ('"' :: (body ++ '"' :: rest)) (.text body) rest
  | word {w rest : List Char} (hw : ∀ c ∈ w, isWordChar c = true) (hne : w ≠ [])
      (hrest : startsWord rest = false) : Lexes (w ++ rest) (.word w) rest

/-- The token at the start of a text comes before those of the rest. -/
theorem Lexes.tokens_eq {cs rest : List Char} {t : Token} (h : Lexes cs t rest) :
    tokens cs = t :: tokens rest := by
  cases h with
  | mark h => exact tokens_mark h rest
  | text h => exact tokens_text h rest
  | word hw hne hrest => exact tokens_word hw hne hrest

/-- Every token takes up some of the text. -/
theorem Lexes.length_lt {cs rest : List Char} {t : Token} (h : Lexes cs t rest) :
    rest.length < cs.length := by
  cases h with
  | mark h => exact Nat.lt_succ_self _
  | text h =>
    simp only [List.length_cons, List.length_append]
    omega
  | word hw hne hrest =>
    have hpos := List.length_pos_iff.mpr hne
    rw [List.length_append]
    omega

/-- A word that is taken as far as it goes is not gone on with. -/
theorem startsWord_dropWhile (cs : List Char) : startsWord (cs.dropWhile isWordChar) = false := by
  unfold startsWord
  cases h : (cs.dropWhile isWordChar).head? with
  | none => rfl
  | some c =>
    have hnot := List.head?_dropWhile_not isWordChar cs
    rw [h] at hnot
    simpa using hnot

/-- Every text that is not blank starts with a token, unless it ends inside a string literal. -/
theorem exists_lexes {cs : List Char} (hne : skipBlank cs ≠ []) :
    (∃ t rest, Lexes (skipBlank cs) t rest) ∨ tokens cs = [.unclosed] := by
  rw [← tokens_skipBlank]
  obtain ⟨c, rest, hcs⟩ := List.exists_cons_of_ne_nil hne
  -- blanks have been skipped, so this is none
  have hblank : isBlank c = false := by
    have hnot := List.head?_dropWhile_not isBlank cs
    rw [show List.dropWhile isBlank cs = c :: rest from hcs] at hnot
    simpa using hnot
  rw [hcs]
  by_cases hquote : c = '"'
  · subst hquote
    cases hsplit : splitText? rest with
    | none =>
      -- no quote closes the literal
      refine Or.inr ?_
      rw [tokens, textTokens_eq, hsplit]
      rfl
    | some p =>
      obtain ⟨hbody, rfl⟩ := isBody_of_splitText? hsplit
      exact Or.inl ⟨.text p.1, p.2, .text hbody⟩
  · refine Or.inl ?_
    by_cases hword : isWordChar c = true
    · refine ⟨.word ((c :: rest).takeWhile isWordChar), (c :: rest).dropWhile isWordChar, ?_⟩
      have hsplit := List.takeWhile_append_dropWhile (p := isWordChar) (l := c :: rest)
      have hlexes : Lexes ((c :: rest).takeWhile isWordChar ++ (c :: rest).dropWhile isWordChar)
          (.word ((c :: rest).takeWhile isWordChar)) ((c :: rest).dropWhile isWordChar) := by
        refine .word (fun d hd => List.mem_takeWhile_imp hd) ?_ (startsWord_dropWhile _)
        rw [List.takeWhile_cons_of_pos hword]
        exact List.cons_ne_nil _ _
      rwa [hsplit] at hlexes
    · exact ⟨.mark c, rest, .mark ⟨hquote, hblank, by simpa using hword⟩⟩

/-- What the first token of a text says about its characters. -/
theorem lexes_of_tokens {cs : List Char} {t : Token} {ts : List Token} (h : tokens cs = t :: ts)
    (ht : t ≠ .unclosed) : ∃ rest, Lexes (skipBlank cs) t rest ∧ tokens rest = ts := by
  have hne : skipBlank cs ≠ [] := by
    intro hnil
    rw [← tokens_skipBlank, hnil, tokens] at h
    cases h
  rcases exists_lexes hne with ⟨u, rest, hlexes⟩ | hunclosed
  · have htokens := hlexes.tokens_eq
    rw [tokens_skipBlank, h] at htokens
    obtain ⟨rfl, rfl⟩ := List.cons.inj htokens
    exact ⟨rest, hlexes, rfl⟩
  · rw [h] at hunclosed
    exact absurd (List.cons.inj hunclosed).1 ht

/-! ## Reading string literals

The value of a literal is read from its body alone, whatever follows the closing quote. -/

/-- A hexadecimal digit is neither a quote nor a backslash. -/
theorem ne_of_hexDigit? {c : Char} {n : Nat} (h : Text.hexDigit? c = some n) :
    c ≠ '"' ∧ c ≠ '\\' := by
  constructor
  · rintro rfl
    exact absurd h (by decide +revert)
  · rintro rfl
    exact absurd h (by decide +revert)

/-- A numeric escape is one in a body too: its digits are plain characters there. -/
theorem isBody_unicode {a b c d : Char} {n : Nat} (h : hex4? a b c d = some n) {body : List Char}
    (hbody : IsBody body) : IsBody ('\\' :: 'u' :: a :: b :: c :: d :: body) := by
  unfold hex4? at h
  obtain ⟨_, ha, h⟩ := Option.bind_eq_some_iff.mp h
  obtain ⟨_, hb, h⟩ := Option.bind_eq_some_iff.mp h
  obtain ⟨_, hc, h⟩ := Option.bind_eq_some_iff.mp h
  obtain ⟨_, hd, -⟩ := Option.bind_eq_some_iff.mp h
  have hplain : ∀ {x : Char} {m : Nat} {tail : List Char}, Text.hexDigit? x = some m →
      IsBody tail → IsBody (x :: tail) :=
    fun hx htail => .plain (ne_of_hexDigit? hx).1 (ne_of_hexDigit? hx).2 htail
  exact .escape 'u' (hplain ha (hplain hb (hplain hc (hplain hd hbody))))

/-- The text starts with the body of a literal, and what follows the body does not matter. -/
def ReadsBody (read cs : List Char) (s : String) (rest : List Char) : Prop :=
  ∃ body, IsBody body ∧ cs = body ++ '"' :: rest
    ∧ ∀ tail, readStringBody read (body ++ '"' :: tail) = some (s, tail)

/-- Reading can take a step over the front of a body. -/
theorem ReadsBody.step {read read' cs rest : List Char} {s : String} (front : List Char)
    (hbody : ∀ {body}, IsBody body → IsBody (front ++ body))
    (hstep : ∀ tail, readStringBody read (front ++ tail) = readStringBody read' tail)
    (h : ReadsBody read' cs s rest) : ReadsBody read (front ++ cs) s rest := by
  obtain ⟨body, hb, rfl, hread⟩ := h
  refine ⟨front ++ body, hbody hb, (List.append_assoc ..).symm, fun tail => ?_⟩
  rw [List.append_assoc, hstep, hread]

/-- What is read as a string is a body with its closing quote. -/
theorem readsBody_of_readStringBody {read cs rest : List Char} {s : String}
    (h : readStringBody read cs = some (s, rest)) : ReadsBody read cs s rest := by
  fun_induction readStringBody read cs with
  | case1 read tail =>
    obtain ⟨rfl, rfl⟩ := Prod.mk.inj (Option.some.inj h)
    exact ⟨[], .nil, rfl, fun _ => rfl⟩
  | case4 read a b c d a' b' c' d' tail n hn hhigh m hm hlow code ih =>
    -- two escapes that are one character
    refine (ih h).step ['\\', 'u', a, b, c, d, '\\', 'u', a', b', c', d'] ?_ ?_
    · exact fun hbody => isBody_unicode hn (isBody_unicode hm hbody)
    · intro tail
      simp [readStringBody, hn, hhigh, hm, hlow, code]
  -- an escape that starts no pair, with another one behind it
  | case7 read a b c d a' b' c' d' tail n hn hhigh hlow ih =>
    refine (ih h).step ['\\', 'u', a, b, c, d] (isBody_unicode hn) ?_
    exact readStringBody_unicode hn (by simpa using hhigh) (by simpa using hlow) read
  | case10 read a b c d tail _ n hn hsurrogate ih =>
    rw [Bool.not_eq_true, Bool.or_eq_false_iff] at hsurrogate
    refine (ih h).step ['\\', 'u', a, b, c, d] (isBody_unicode hn) ?_
    exact readStringBody_unicode hn hsurrogate.1 hsurrogate.2 read
  | case12 read c tail _ _ e he ih =>
    exact (ih h).step ['\\', c] (.escape c) (readStringBody_short he read)
  | case14 read c tail hquote _ _ _ hplain ih =>
    simp only [Bool.or_eq_true, decide_eq_true_eq, beq_iff_eq, not_or] at hplain
    refine (ih h).step [c] (.plain hquote hplain.2) ?_
    exact readStringBody_plain hquote hplain.2 hplain.1 read
  | case2 | case3 | case5 | case6 | case8 | case9 | case11 | case13 | case15 => cases h

/-- A literal has the value that is read from its body alone. -/
theorem readStringBody_append {body : List Char} {s : String}
    (h : readStringBody [] (body ++ ['"']) = some (s, [])) (rest : List Char) :
    readStringBody [] (body ++ '"' :: rest) = some (s, rest) := by
  obtain ⟨other, -, heq, hread⟩ := readsBody_of_readStringBody h
  -- the body that was read is the given one, since both end in the same quote
  rw [List.append_cancel_right heq]
  exact hread rest

/-! ## Reading words

Where a word ends, the reader of numbers stops as it does at the end of a text. -/

/-- The part of a number from its fraction. -/
def readFraction (negative : Bool) (significand : Nat) (surplus : List Char) (cs : List Char) :
    Option (Number × List Char) :=
  let fraction := cs.takeWhile Text.isAsciiDigit
  let (significand', added, _) := addDigits significand 0 fraction
  if fraction.isEmpty then none
  else readExponent negative significand' ((surplus.length : Int) - added)
    (cs.dropWhile Text.isAsciiDigit)

/-- The part of a number after its digits, of which some may be left over. -/
def readAfterDigits (negative : Bool) (significand : Nat) (surplus : List Char) :
    List Char → Option (Number × List Char)
  | '.' :: tail => readFraction negative significand surplus tail
  | cs =>
    if cs.head?.any (fun c => c == 'e' || c == 'E') then
      readExponent negative significand surplus.length cs
    else if surplus.isEmpty then (integer negative significand).map (·, cs)
    else (ofParts negative significand surplus.length).map (·, cs)

/-- Where no point follows the digits, only an exponent may. -/
theorem readAfterDigits_of_ne {cs : List Char} (h : ∀ tail, cs ≠ '.' :: tail) (negative : Bool)
    (significand : Nat) (surplus : List Char) :
    readAfterDigits negative significand surplus cs =
      if cs.head?.any (fun c => c == 'e' || c == 'E') then
        readExponent negative significand surplus.length cs
      else if surplus.isEmpty then (integer negative significand).map (·, cs)
      else (ofParts negative significand surplus.length).map (·, cs) := by
  unfold readAfterDigits
  split
  next tail => exact absurd rfl (h tail)
  next => rfl

/-- The digits of a number, with no zero before others. -/
def leadsNumber : List Char → Bool
  | [] => false
  | first :: more => !(first == '0' && !more.isEmpty)

/-- A number is read in two parts, its digits and what comes after them. -/
theorem readUnsigned_eq (negative : Bool) (cs : List Char) :
    readUnsigned negative cs =
      if leadsNumber (cs.takeWhile Text.isAsciiDigit) then
        readAfterDigits negative (addDigits 0 0 (cs.takeWhile Text.isAsciiDigit)).1
          (addDigits 0 0 (cs.takeWhile Text.isAsciiDigit)).2.2 (cs.dropWhile Text.isAsciiDigit)
      else none := by
  unfold readUnsigned
  generalize cs.takeWhile Text.isAsciiDigit = digits
  generalize cs.dropWhile Text.isAsciiDigit = after
  cases digits with
  | nil => rfl
  | cons first more =>
    simp only
    by_cases hzero : (first == '0' && !more.isEmpty) = true
    · have hleads : ¬ leadsNumber (first :: more) = true := by
        rw [leadsNumber, hzero]
        decide
      rw [if_pos hzero, if_neg hleads]
    · have hleads : leadsNumber (first :: more) = true := by
        rw [leadsNumber, eq_false_of_ne_true hzero]
        rfl
      rw [if_neg hzero, if_pos hleads]
      split
      · rfl
      next hpoint =>
        rw [readAfterDigits_of_ne]
        · rfl
        · intro tail heq
          exact hpoint (List.cons.inj heq).1
      · rfl

/-- A result in a longer text. -/
def followedBy {α : Type} (rest : List Char) (p : α × List Char) : α × List Char :=
  (p.1, p.2 ++ rest)

section Words

variable {rest : List Char} (hrest : startsWord rest = false)

include hrest

/-- Where a word is over no digit follows. -/
theorem not_startsWithDigit : ¬ Text.StartsWithDigit rest := by
  rintro ⟨c, hc, hdigit⟩
  have hword : startsWord rest = true := by simp [startsWord, hc, isWordChar, hdigit]
  exact absurd hrest (by simp [hword])

/-- Where a word is over none of its characters follows. -/
theorem ne_of_not_startsWord {c d : Char} {tail : List Char} (h : rest = c :: tail)
    (hd : isWordChar d = true) : c ≠ d := by
  rintro rfl
  subst h
  exact absurd hd (by simpa [startsWord] using hrest)

theorem exponentSign_append_word (cs : List Char) :
    exponentSign (cs ++ rest) = followedBy rest (exponentSign cs) := by
  by_cases hcs : cs = []
  · subst hcs
    refine exponentSign_plain ?_ ?_
    · exact fun _ h => ne_of_not_startsWord hrest h (by decide) rfl
    · exact fun _ h => ne_of_not_startsWord hrest h (by decide) rfl
  · exact exponentSign_append hcs rest

theorem readPower_append_word (negative : Bool) (significand : Nat) (e : Int) (down : Bool)
    (cs : List Char) :
    readPower negative significand e down (cs ++ rest) =
      (readPower negative significand e down cs).map (followedBy rest) := by
  have hdigit := not_startsWithDigit hrest
  unfold readPower
  rw [Text.takeWhile_append_rest cs hdigit, Text.dropWhile_append_rest cs hdigit]
  dsimp only
  split
  · rfl
  · split
    · split
      · rfl
      · rfl
    · rw [Option.map_map]
      rfl

/-- An exponent is read alike whatever follows the word. -/
theorem readExponent_append_word (negative : Bool) (significand : Nat) (e : Int)
    (cs : List Char) :
    readExponent negative significand e (cs ++ rest) =
      (readExponent negative significand e cs).map (followedBy rest) := by
  cases cs with
  | nil =>
    cases hr : rest with
    | nil => simp [readExponent, followedBy, Function.comp_def]
    | cons d tail =>
      -- without an exponent of its own, the number must not get one from what follows
      have he : d ≠ 'e' := ne_of_not_startsWord hrest hr (by decide)
      have hE : d ≠ 'E' := ne_of_not_startsWord hrest hr (by decide)
      have hmark : ¬ (d == 'e' || d == 'E') = true := by simp [he, hE]
      unfold readExponent
      simp only [List.nil_append]
      rw [if_neg hmark, Option.map_map]
      rfl
  | cons c tail =>
    by_cases hmark : (c == 'e' || c == 'E') = true
    · rw [List.cons_append, readExponent_mark hmark, readExponent_mark hmark,
        exponentSign_append_word hrest]
      exact readPower_append_word hrest negative significand e _ _
    · unfold readExponent
      simp only [List.cons_append]
      rw [if_neg hmark, if_neg hmark, Option.map_map]
      rfl

theorem readFraction_append_word (negative : Bool) (significand : Nat) (surplus cs : List Char) :
    readFraction negative significand surplus (cs ++ rest) =
      (readFraction negative significand surplus cs).map (followedBy rest) := by
  have hdigit := not_startsWithDigit hrest
  unfold readFraction
  rw [Text.takeWhile_append_rest cs hdigit, Text.dropWhile_append_rest cs hdigit]
  dsimp only
  split
  · rfl
  · exact readExponent_append_word hrest negative _ _ _

/-- What comes after the digits is read alike whatever follows the word. -/
theorem readAfterDigits_append_word (negative : Bool) (significand : Nat)
    (surplus cs : List Char) :
    readAfterDigits negative significand surplus (cs ++ rest) =
      (readAfterDigits negative significand surplus cs).map (followedBy rest) := by
  by_cases hpoint : ∃ tail, cs = '.' :: tail
  · obtain ⟨tail, rfl⟩ := hpoint
    exact readFraction_append_word hrest negative significand surplus tail
  · -- where the text ends after the digits, neither a point nor an exponent mark follows
    have hpoint' : ¬ ∃ tail, cs ++ rest = '.' :: tail := by
      rintro ⟨tail, heq⟩
      cases cs with
      | nil => exact ne_of_not_startsWord hrest heq (by decide) rfl
      | cons c cs => exact hpoint ⟨cs, congrArg (· :: cs) (List.cons.inj heq).1⟩
    have hhead : (cs ++ rest).head?.any (fun c => c == 'e' || c == 'E') =
        cs.head?.any (fun c => c == 'e' || c == 'E') := by
      cases cs with
      | cons c cs => rfl
      | nil =>
        cases hr : rest with
        | nil => rfl
        | cons d tail =>
          have he : d ≠ 'e' := ne_of_not_startsWord hrest hr (by decide)
          have hE : d ≠ 'E' := ne_of_not_startsWord hrest hr (by decide)
          simp [he, hE]
    rw [readAfterDigits_of_ne fun tail heq => hpoint ⟨tail, heq⟩,
      readAfterDigits_of_ne fun tail heq => hpoint' ⟨tail, heq⟩, hhead,
      readExponent_append_word hrest]
    split
    · rfl
    · split
      · rw [Option.map_map]
        rfl
      · rw [Option.map_map]
        rfl

/-- A number is read alike whatever follows the word. -/
theorem readUnsigned_append_word (negative : Bool) (cs : List Char) :
    readUnsigned negative (cs ++ rest) =
      (readUnsigned negative cs).map (followedBy rest) := by
  have hdigit := not_startsWithDigit hrest
  rw [readUnsigned_eq, readUnsigned_eq, Text.takeWhile_append_rest cs hdigit,
    Text.dropWhile_append_rest cs hdigit]
  split
  · exact readAfterDigits_append_word hrest negative _ _ _
  · rfl

/-- A text that starts with word characters has them in the word that it starts with. -/
theorem exists_append_of_word {w tail : List Char} (front : List Char)
    (hfront : front.all isWordChar = true) (h : w ++ rest = front ++ tail) :
    ∃ more, w = front ++ more := by
  rcases List.append_eq_append_iff.mp h with ⟨extra, hextra, hrest'⟩ | ⟨more, hmore, -⟩
  · -- the front goes on beyond the word, but what follows the word is no part of one
    cases extra with
    | nil => exact ⟨[], by rw [hextra, List.append_nil, List.append_nil]⟩
    | cons c extra =>
      have hc : isWordChar c = true := List.all_eq_true.mp hfront c (by rw [hextra]; simp)
      exact absurd rfl (ne_of_not_startsWord hrest hrest' hc)
  · exact ⟨more, hmore⟩

end Words

/-- Reads a value that is neither a string nor has brackets. -/
def readScalar : List Char → Option (Json × List Char)
  | '-' :: rest => (readUnsigned true rest).map fun r => (.num r.1, r.2)
  | 'n' :: 'u' :: 'l' :: 'l' :: rest => some (.null, rest)
  | 't' :: 'r' :: 'u' :: 'e' :: rest => some (.bool true, rest)
  | 'f' :: 'a' :: 'l' :: 's' :: 'e' :: rest => some (.bool false, rest)
  | cs => (readUnsigned false cs).map fun r => (.num r.1, r.2)

/-- What starts with a character of a word is read as a scalar. -/
theorem readValue_word {c : Char} (h : isWordChar c = true) (depth : Nat) (cs : List Char) :
    readValue depth (c :: cs) = readScalar (c :: cs) := by
  have hnot : ∀ {d : Char}, isWordChar d = false → c ≠ d := by
    rintro d hd rfl
    rw [hd] at h
    cases h
  unfold readValue
  split
  next heq => exact absurd (List.cons.inj heq).1 (hnot (by decide))
  next heq => exact absurd (List.cons.inj heq).1 (hnot (by decide))
  next heq => exact absurd (List.cons.inj heq).1 (hnot (by decide))
  next heq => rw [heq]; rfl
  next heq => rw [heq]; rfl
  next heq => rw [heq]; rfl
  next heq => rw [heq]; rfl
  next hminus hnull htrue hfalse =>
    rw [readScalar]
    · exact hminus
    · exact hnull
    · exact htrue
    · exact hfalse

/-- Only brackets and string literals start a value that is no word. -/
theorem readValue_mark {c : Char} (hword : isWordChar c = false) (harray : c ≠ '[')
    (hobject : c ≠ '\x7b') (htext : c ≠ '"') (depth : Nat) (cs : List Char) :
    readValue depth (c :: cs) = none := by
  have hnot : ∀ {d : Char}, isWordChar d = true → c ≠ d := by
    rintro d hd rfl
    rw [hd] at hword
    cases hword
  have hdigit : Text.isAsciiDigit c = false := by
    by_contra h
    exact absurd hword (by simp [isWordChar, h])
  unfold readValue
  split
  next heq => exact absurd (List.cons.inj heq).1 harray
  next heq => exact absurd (List.cons.inj heq).1 hobject
  next heq => exact absurd (List.cons.inj heq).1 htext
  next heq => exact absurd (List.cons.inj heq).1 (hnot (by decide))
  next heq => exact absurd (List.cons.inj heq).1 (hnot (by decide))
  next heq => exact absurd (List.cons.inj heq).1 (hnot (by decide))
  next heq => exact absurd (List.cons.inj heq).1 (hnot (by decide))
  next =>
    rw [readUnsigned_eq, List.takeWhile_cons_of_neg (by simp [hdigit])]
    rfl

/-- What is read of a word does not depend on what follows the word. -/
theorem readScalar_append_word {rest : List Char} (hrest : startsWord rest = false)
    (w : List Char) :
    readScalar (w ++ rest) = (readScalar w).map (followedBy rest) := by
  have hnumber : ∀ (negative : Bool) (cs : List Char),
      (readUnsigned negative (cs ++ rest)).map (fun r => (Json.num r.1, r.2)) =
        ((readUnsigned negative cs).map fun r => (Json.num r.1, r.2)).map (followedBy rest) := by
    intro negative cs
    rw [readUnsigned_append_word hrest, Option.map_map, Option.map_map]
    rfl
  fun_cases readScalar w with
  | case1 tail => exact hnumber true tail
  | case2 tail => rfl
  | case3 tail => rfl
  | case4 tail => rfl
  | case5 w hminus hnull htrue hfalse =>
    -- nothing special starts the word; then nothing special starts the longer text either
    rw [readScalar]
    · exact hnumber false w
    · intro tail heq
      obtain ⟨more, hmore⟩ := exists_append_of_word hrest ['-'] (by decide) heq
      exact hminus more hmore
    · intro tail heq
      obtain ⟨more, hmore⟩ :=
        exists_append_of_word hrest ['n', 'u', 'l', 'l'] (by decide) heq
      exact hnull more hmore
    · intro tail heq
      obtain ⟨more, hmore⟩ :=
        exists_append_of_word hrest ['t', 'r', 'u', 'e'] (by decide) heq
      exact htrue more hmore
    · intro tail heq
      obtain ⟨more, hmore⟩ :=
        exists_append_of_word hrest ['f', 'a', 'l', 's', 'e'] (by decide) heq
      exact hfalse more hmore

/-! What is left over after a word is the end of it. -/

theorem exponentSign_suffix (cs : List Char) : (exponentSign cs).2 <:+ cs := by
  unfold exponentSign
  split
  · exact List.suffix_cons _ _
  · exact List.suffix_cons _ _
  · exact List.suffix_rfl

/-- A reader that takes nothing leaves all of its text. -/
theorem suffix_of_map_pair {α : Type} {o : Option α} {a : α} {cs rest : List Char}
    (h : o.map (·, cs) = some (a, rest)) : rest <:+ cs := by
  obtain rfl := (map_pair_eq h).2
  exact List.suffix_rfl

/-- What is left over after an exponent is an end of the text. -/
theorem readPower_suffix {negative : Bool} {significand : Nat} {e : Int} {down : Bool}
    {cs rest : List Char} {n : Number}
    (h : readPower negative significand e down cs = some (n, rest)) : rest <:+ cs := by
  unfold readPower at h
  dsimp only at h
  split at h
  · cases h
  · split at h
    · split at h
      · cases h
      · rw [← (Prod.mk.inj (Option.some.inj h)).2]
        exact List.dropWhile_suffix _
    · exact (suffix_of_map_pair h).trans (List.dropWhile_suffix _)

theorem readExponent_suffix {negative : Bool} {significand : Nat} {e : Int} {cs rest : List Char}
    {n : Number} (h : readExponent negative significand e cs = some (n, rest)) : rest <:+ cs := by
  cases cs with
  | nil => exact suffix_of_map_pair h
  | cons c tail =>
    by_cases hmark : (c == 'e' || c == 'E') = true
    · rw [readExponent_mark hmark] at h
      exact ((readPower_suffix h).trans (exponentSign_suffix tail)).trans (List.suffix_cons c tail)
    · unfold readExponent at h
      simp only at h
      rw [if_neg hmark] at h
      exact suffix_of_map_pair h

theorem readAfterDigits_suffix {negative : Bool} {significand : Nat} {surplus cs rest : List Char}
    {n : Number} (h : readAfterDigits negative significand surplus cs = some (n, rest)) :
    rest <:+ cs := by
  unfold readAfterDigits at h
  split at h
  next tail =>
    unfold readFraction at h
    dsimp only at h
    split at h
    · cases h
    · exact ((readExponent_suffix h).trans (List.dropWhile_suffix _)).trans (List.suffix_cons _ _)
  next =>
    split at h
    · exact readExponent_suffix h
    · split at h
      · exact suffix_of_map_pair h
      · exact suffix_of_map_pair h

/-- What is left over after a number is an end of the text. -/
theorem readUnsigned_suffix {negative : Bool} {cs rest : List Char} {n : Number}
    (h : readUnsigned negative cs = some (n, rest)) : rest <:+ cs := by
  rw [readUnsigned_eq] at h
  split at h
  · exact (readAfterDigits_suffix h).trans (List.dropWhile_suffix _)
  · cases h

/-- What is left over after a scalar is an end of the text. -/
theorem readScalar_suffix {cs rest : List Char} {v : Json}
    (h : readScalar cs = some (v, rest)) : rest <:+ cs := by
  have hnumber : ∀ {negative : Bool} {cs : List Char},
      (readUnsigned negative cs).map (fun r => (Json.num r.1, r.2)) = some (v, rest) →
        rest <:+ cs := by
    intro negative cs h
    obtain ⟨r, hr, heq⟩ := Option.map_eq_some_iff.mp h
    rw [← (Prod.mk.inj heq).2]
    exact readUnsigned_suffix hr
  fun_cases readScalar cs with
  | case1 tail => exact (hnumber h).trans (List.suffix_cons _ _)
  | case2 tail =>
    rw [← (Prod.mk.inj (Option.some.inj h)).2]
    exact ⟨['n', 'u', 'l', 'l'], rfl⟩
  | case3 tail =>
    rw [← (Prod.mk.inj (Option.some.inj h)).2]
    exact ⟨['t', 'r', 'u', 'e'], rfl⟩
  | case4 tail =>
    rw [← (Prod.mk.inj (Option.some.inj h)).2]
    exact ⟨['f', 'a', 'l', 's', 'e'], rfl⟩
  | case5 _ hminus hnull htrue hfalse =>
    rw [readScalar] at h
    · exact hnumber h
    · exact hminus
    · exact hnull
    · exact htrue
    · exact hfalse

end SourceAtlas.Json
