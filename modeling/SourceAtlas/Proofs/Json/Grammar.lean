import SourceAtlas.Proofs.Json.Tokens
import Mathlib.Data.List.Chain

/-!
# JSON text: the reader and the grammar

Over the tokens of a text JSON is a grammar, told once for any meaning of words and string literals
(`Parses`). The reader accepts a text exactly if the grammar derives its tokens within the depth
that is allowed, and then gives the value of the derivation (`readChars?_eq_some_iff`): what it
reads is derived (`parses_of_readValue`), and what is derived it reads (`Parses.reads`). So two
texts with the same tokens are read alike (`readChars?_congr`).

What the grammar has no place for is not in a text that is read either: marks other than brackets,
commas and colons, and a comma with a closing bracket after it (`IsShaped.tidy`).
-/

namespace SourceAtlas.Json

/-- What words and string literals stand for. -/
structure Lexicon where
  word : List Char → Json → Prop
  text : List Char → String → Prop

/-- A value, the items of an array with the closing bracket, or the members of an object with the
closing brace. -/
inductive Part where
  | value (v : Json)
  | items (vs : List Json)
  | members (ms : List (String × Json))

/-- The tokens are a part whose values nest at most so deep. -/
inductive Parses (x : Lexicon) : Nat → Part → List Token → Prop where
  | word {depth : Nat} {w : List Char} {v : Json} (h : x.word w v) :
      Parses x depth (.value v) [.word w]
  | text {depth : Nat} {body : List Char} {s : String} (h : x.text body s) :
      Parses x depth (.value (.str s)) [.text body]
  | emptyArray {depth : Nat} : Parses x (depth + 1) (.value (.arr [])) [.mark '[', .mark ']']
  | array {depth : Nat} {vs : List Json} {ts : List Token} (h : Parses x depth (.items vs) ts) :
      Parses x (depth + 1) (.value (.arr vs)) (.mark '[' :: ts)
  | emptyObject {depth : Nat} :
      Parses x (depth + 1) (.value (.obj [])) [.mark '\x7b', .mark '\x7d']
  | object {depth : Nat} {ms : List (String × Json)} {ts : List Token}
      (h : Parses x depth (.members ms) ts) :
      Parses x (depth + 1) (.value (.obj ms)) (.mark '\x7b' :: ts)
  | lastItem {depth : Nat} {v : Json} {ts : List Token} (h : Parses x depth (.value v) ts) :
      Parses x depth (.items [v]) (ts ++ [.mark ']'])
  | nextItem {depth : Nat} {v : Json} {vs : List Json} {ts us : List Token}
      (h : Parses x depth (.value v) ts) (hs : Parses x depth (.items vs) us) :
      Parses x depth (.items (v :: vs)) (ts ++ .mark ',' :: us)
  | lastMember {depth : Nat} {body : List Char} {key : String} {v : Json} {ts : List Token}
      (hkey : x.text body key) (h : Parses x depth (.value v) ts) :
      Parses x depth (.members [(key, v)]) (.text body :: .mark ':' :: (ts ++ [.mark '\x7d']))
  | nextMember {depth : Nat} {body : List Char} {key : String} {v : Json}
      {ms : List (String × Json)} {ts us : List Token} (hkey : x.text body key)
      (h : Parses x depth (.value v) ts) (hs : Parses x depth (.members ms) us) :
      Parses x depth (.members ((key, v) :: ms))
        (.text body :: .mark ':' :: (ts ++ .mark ',' :: us))

namespace Lexicon

/-- Words and string literals as they are read. -/
def reading : Lexicon where
  word w v := readScalar w = some (v, [])
  text body s := readStringBody [] (body ++ ['"']) = some (s, [])

/-- Words and string literals that may stand for anything. -/
def any : Lexicon where
  word _ _ := True
  text _ _ := True

end Lexicon

/-- A text that is built as JSON is. Its words and string literals are not looked at, so it may have
numbers that are out of range, and it may nest deeper than the reader goes. -/
def IsShaped (cs : List Char) : Prop :=
  ∃ depth v, Parses .any depth (.value v) (tokens cs)

/-- What is derived for some meaning of words and literals is derived for any. -/
theorem Parses.any {x : Lexicon} {depth : Nat} {part : Part} {ts : List Token}
    (h : Parses x depth part ts) : Parses .any depth part ts := by
  induction h with
  | word => exact .word trivial
  | text => exact .text trivial
  | emptyArray => exact .emptyArray
  | array _ ih => exact .array ih
  | emptyObject => exact .emptyObject
  | object _ ih => exact .object ih
  | lastItem _ ih => exact .lastItem ih
  | nextItem _ _ ih ihs => exact .nextItem ih ihs
  | lastMember _ _ ih => exact .lastMember trivial ih
  | nextMember _ _ _ ih ihs => exact .nextMember trivial ih ihs

/-! ## What the grammar has no place for -/

/-- The closing brackets. -/
def IsClosing (c : Char) : Prop :=
  c = ']' ∨ c = '\x7d'

instance (c : Char) : Decidable (IsClosing c) :=
  inferInstanceAs (Decidable (_ ∨ _))

/-- The second token can stand after the first one: a closing bracket does not after a comma. -/
def Separated (t u : Token) : Prop :=
  t = .mark ',' → ∀ c, IsClosing c → u ≠ .mark c

/-- Tokens without other marks than those of JSON, and without a comma before a closing bracket. -/
structure Tidy (ts : List Token) : Prop where
  marks : ∀ c, Token.mark c ∈ ts → c ∈ ['[', ']', '\x7b', '\x7d', ',', ':']
  separated : ts.IsChain Separated

/-- Tidy tokens that a comma can stand before, and a closing bracket after. -/
structure Framed (ts : List Token) : Prop extends Tidy ts where
  first : ∃ t us, ts = t :: us ∧ ∀ c, IsClosing c → t ≠ .mark c
  last : ts.getLast? ≠ some (.mark ',')

namespace Tidy

variable {ts us : List Token}

/-- A token before tidy ones. -/
theorem cons (h : Tidy ts) {t : Token}
    (hmark : ∀ c, t = .mark c → c ∈ ['[', ']', '\x7b', '\x7d', ',', ':'])
    (hseparated : ∀ u ∈ ts.head?, Separated t u) : Tidy (t :: ts) where
  marks c hc := by
    rcases List.mem_cons.mp hc with heq | hc
    · exact hmark c heq.symm
    · exact h.marks c hc
  separated := List.isChain_cons.mpr ⟨hseparated, h.separated⟩

/-- Tidy tokens after tidy ones that end in no comma. -/
theorem append (ht : Tidy ts) (hu : Tidy us) (hlast : ts.getLast? ≠ some (.mark ',')) :
    Tidy (ts ++ us) where
  marks c hc := (List.mem_append.mp hc).elim (ht.marks c) (hu.marks c)
  separated := by
    refine List.isChain_append.mpr ⟨ht.separated, hu.separated, fun t hmem u _ hcomma => ?_⟩
    -- the only token that keeps another away would be a comma at the end of the first part
    subst hcomma
    exact absurd hmem hlast

/-- Tidy tokens stay so without the first. -/
theorem of_cons {t : Token} (h : Tidy (t :: ts)) : Tidy ts :=
  ⟨fun c hc => h.marks c (List.mem_cons_of_mem t hc), (List.isChain_cons.mp h.separated).2⟩

end Tidy

/-- The marks other than a comma and the closing brackets, and every token that is no mark. -/
def Opens (t : Token) : Prop :=
  ∀ c, t = .mark c → c = '[' ∨ c = '\x7b' ∨ c = ':'

/-- The three marks that open something. -/
theorem opens_mark {c : Char} (h : c = '[' ∨ c = '\x7b' ∨ c = ':') : Opens (.mark c) := by
  intro d hd
  rwa [← Token.mark.inj hd]

namespace Framed

variable {ts us : List Token}

theorem ne_nil (h : Framed ts) : ts ≠ [] := by
  obtain ⟨t, us, rfl, -⟩ := h.first
  exact List.cons_ne_nil t us

/-- A token that opens something is framed by itself. -/
theorem single {t : Token} (h : Opens t) : Framed [t] where
  marks c hc := by
    have hcases := h c (List.mem_singleton.mp hc).symm
    simp only [List.mem_cons]
    tauto
  separated := List.isChain_singleton t
  first := by
    refine ⟨t, [], rfl, fun c hc ht => ?_⟩
    have hopens := h c ht
    rcases hc with rfl | rfl <;> exact absurd hopens (by decide)
  last heq := absurd (h ',' (Option.some.inj heq)) (by decide)

theorem append (ht : Framed ts) (hu : Tidy us) (hne : us ≠ [])
    (hlast : us.getLast? ≠ some (.mark ',')) :
    Framed (ts ++ us) where
  toTidy := ht.toTidy.append hu ht.last
  first := by
    obtain ⟨t, rest, rfl, hfirst⟩ := ht.first
    exact ⟨t, rest ++ us, rfl, hfirst⟩
  last := by rwa [List.getLast?_append_of_ne_nil _ hne]

/-- Such a token can stand before framed ones. -/
theorem before (h : Framed us) {t : Token} (ht : Opens t) : Framed (t :: us) :=
  (single ht).append h.toTidy h.ne_nil h.last

/-- A closing bracket can stand after framed tokens. -/
theorem close (h : Framed ts) {c : Char} (hc : IsClosing c) : Framed (ts ++ [.mark c]) := by
  refine h.append ⟨?_, List.isChain_singleton _⟩ (List.cons_ne_nil _ _) ?_
  · intro d hd
    rw [Token.mark.inj (List.mem_singleton.mp hd)]
    rcases hc with rfl | rfl <;> decide
  · rcases hc with rfl | rfl <;> decide

/-- A comma can stand between framed tokens. -/
theorem comma (ht : Framed ts) (hu : Framed us) : Framed (ts ++ .mark ',' :: us) := by
  refine ht.append (hu.toTidy.cons ?_ ?_) (List.cons_ne_nil _ _) ?_
  · intro c hc
    rw [← Token.mark.inj hc]
    decide
  · -- what follows the comma is no closing bracket
    obtain ⟨u, rest, rfl, hfirst⟩ := hu.first
    rintro _ ⟨⟩ -
    exact hfirst
  · -- and the last token is that of the second part
    obtain ⟨u, rest, rfl, -⟩ := hu.first
    rw [List.getLast?_cons_cons]
    exact hu.last

end Framed

/-- Whatever the grammar derives is framed. -/
theorem Parses.framed {x : Lexicon} {depth : Nat} {part : Part} {ts : List Token}
    (h : Parses x depth part ts) : Framed ts := by
  -- words and literals are no marks
  have hother : ∀ {t : Token}, (∀ c, t ≠ .mark c) → Opens t := fun h c hc => absurd hc (h c)
  induction h with
  | word => exact .single (hother fun c hc => by cases hc)
  | text => exact .single (hother fun c hc => by cases hc)
  | emptyArray => exact (Framed.single (opens_mark (by decide))).close (Or.inl rfl)
  | emptyObject => exact (Framed.single (opens_mark (by decide))).close (Or.inr rfl)
  | array _ ih => exact ih.before (opens_mark (by decide))
  | object _ ih => exact ih.before (opens_mark (by decide))
  | lastItem _ ih => exact ih.close (Or.inl rfl)
  | nextItem _ _ ih ihs => exact ih.comma ihs
  | lastMember _ _ ih =>
    refine Framed.before (Framed.before (ih.close (Or.inr rfl)) (opens_mark (by decide))) ?_
    exact hother fun c hc => by cases hc
  | nextMember _ _ _ ih ihs =>
    refine Framed.before (Framed.before (ih.comma ihs) (opens_mark (by decide))) ?_
    exact hother fun c hc => by cases hc

/-- So a text that is built as JSON is tidy. -/
theorem IsShaped.tidy {cs : List Char} (h : IsShaped cs) : Tidy (tokens cs) := by
  obtain ⟨depth, v, hparses⟩ := h
  exact hparses.framed.toTidy

/-! ## What is read is derived -/

/-- A value ends where blanks and something that is no word character follow. -/
theorem startsWord_of_skipBlank {rest : List Char} (h : startsWord (skipBlank rest) = false) :
    startsWord rest = false := by
  cases rest with
  | nil => rfl
  | cons c tail =>
    by_contra hc
    have hword : isWordChar c = true := by simpa [startsWord] using hc
    rw [skipBlank_of_not_blank (isBlank_of_isWordChar hword)] at h
    exact hc h

/-- The mark that a text starts with, blanks apart, is its first token. -/
theorem tokens_of_skipBlank {rest tail : List Char} {c : Char} (h : skipBlank rest = c :: tail)
    (hc : IsMark c) : tokens rest = .mark c :: tokens tail := by
  rw [← tokens_skipBlank, h, tokens_mark hc]

/-- The text after a value that was read, where the value ends. -/
def ValueSound (depth : Nat) : Prop :=
  ∀ {cs : List Char} {v : Json} {rest : List Char}, readValue depth cs = some (v, rest) →
    startsWord rest = false →
    ∃ ts, tokens cs = ts ++ tokens rest ∧ Parses .reading depth (.value v) ts

/-- Items that were read are derived, up to the closing bracket. -/
theorem parses_of_readItems {depth : Nat} (hvalue : ValueSound depth) {fuel : Nat}
    {read vs : List Json} {cs rest : List Char}
    (h : readItems (readValue depth) fuel read cs = some (vs, rest)) :
    ∃ ts ws, vs = read.reverse ++ ws ∧ tokens cs = ts ++ tokens rest
      ∧ Parses .reading depth (.items ws) ts := by
  induction fuel generalizing read cs with
  | zero => cases h
  | succ fuel ih =>
    rw [readItems] at h
    split at h
    · cases h
    next v tail hv =>
      split at h
      -- the item ends before the comma, so the value that was read is all of it
      next tail' hcomma =>
        obtain ⟨ts, hts, hparses⟩ := hvalue hv (startsWord_of_skipBlank (by rw [hcomma]; rfl))
        obtain ⟨us, ws, rfl, hus, hitems⟩ := ih h
        refine ⟨ts ++ .mark ',' :: us, v :: ws, by simp, ?_, .nextItem hparses hitems⟩
        rw [← tokens_skipBlank, hts, tokens_of_skipBlank hcomma (by decide), hus]
        simp
      -- the last item; `read` holds the others in reverse
      next tail' hclose =>
        obtain ⟨ts, hts, hparses⟩ := hvalue hv (startsWord_of_skipBlank (by rw [hclose]; rfl))
        obtain ⟨rfl, rfl⟩ := Prod.mk.inj (Option.some.inj h)
        refine ⟨ts ++ [.mark ']'], [v], by simp, ?_, .lastItem hparses⟩
        rw [← tokens_skipBlank, hts, tokens_of_skipBlank hclose (by decide)]
        simp
      next => cases h

/-- A literal that was read is a token, and its value comes from its body. -/
theorem text_of_readStringBody {cs rest : List Char} {s : String}
    (h : readStringBody [] cs = some (s, rest)) :
    ∃ body, tokens ('"' :: cs) = .text body :: tokens rest ∧ Lexicon.reading.text body s := by
  obtain ⟨body, hbody, rfl, hread⟩ := readsBody_of_readStringBody h
  exact ⟨body, tokens_text hbody rest, hread []⟩

/-- Members that were read are derived, up to the closing brace. -/
theorem parses_of_readMembers {depth : Nat} (hvalue : ValueSound depth) {fuel : Nat}
    {read ms : List (String × Json)} {cs rest : List Char}
    (h : readMembers (readValue depth) fuel read cs = some (ms, rest)) :
    ∃ ts ns, ms = read.reverse ++ ns ∧ tokens cs = ts ++ tokens rest
      ∧ Parses .reading depth (.members ns) ts := by
  induction fuel generalizing read cs with
  | zero => cases h
  | succ fuel ih =>
    rw [readMembers] at h
    split at h
    next tail hquote =>
      split at h
      · cases h
      next key afterKey hkey =>
        split at h
        next afterColon hcolon =>
          split at h
          · cases h
          next v afterValue hv =>
            obtain ⟨body, hbody, htext⟩ := text_of_readStringBody hkey
            -- the key and the colon are tokens before those of the value
            have hcs : ∀ {ts : List Token},
                tokens (skipBlank afterColon) = ts ++ tokens afterValue →
                tokens cs = .text body :: .mark ':' :: (ts ++ tokens afterValue) := by
              intro ts hts
              rw [← tokens_skipBlank, hquote, hbody, tokens_of_skipBlank hcolon (by decide),
                ← tokens_skipBlank afterColon, hts]
            split at h
            next tail' hcomma =>
              obtain ⟨ts, hts, hparses⟩ := hvalue hv (startsWord_of_skipBlank (by rw [hcomma]; rfl))
              obtain ⟨us, ns, rfl, hus, hmembers⟩ := ih h
              refine ⟨.text body :: .mark ':' :: (ts ++ .mark ',' :: us), (key, v) :: ns, by simp,
                ?_, .nextMember htext hparses hmembers⟩
              rw [hcs hts, tokens_of_skipBlank hcomma (by decide), hus]
              simp
            next tail' hclose =>
              obtain ⟨ts, hts, hparses⟩ := hvalue hv (startsWord_of_skipBlank (by rw [hclose]; rfl))
              obtain ⟨rfl, rfl⟩ := Prod.mk.inj (Option.some.inj h)
              refine ⟨.text body :: .mark ':' :: (ts ++ [.mark '\x7d']), [(key, v)], by simp, ?_,
                .lastMember htext hparses⟩
              rw [hcs hts, tokens_of_skipBlank hclose (by decide)]
              simp
            next => cases h
        next => cases h
    next => cases h

/-- A word that was read to its end is a token, and its value comes from it alone. -/
theorem word_of_readScalar {cs rest : List Char} {v : Json} (hword : startsWord cs = true)
    (h : readScalar cs = some (v, rest)) (hrest : startsWord rest = false) :
    ∃ w, tokens cs = .word w :: tokens rest ∧ Lexicon.reading.word w v := by
  have hall : ∀ c ∈ cs.takeWhile isWordChar, isWordChar c = true :=
    fun c hc => List.mem_takeWhile_imp hc
  have hne : cs.takeWhile isWordChar ≠ [] := by
    cases cs with
    | nil => cases hword
    | cons c cs =>
      rw [List.takeWhile_cons_of_pos (show isWordChar c = true from hword)]
      exact List.cons_ne_nil _ _
  have hsplit : cs.takeWhile isWordChar ++ cs.dropWhile isWordChar = cs :=
    List.takeWhile_append_dropWhile
  -- the text is a word `w` and what comes `after` it
  generalize cs.takeWhile isWordChar = w at hall hne hsplit
  have hend := startsWord_dropWhile cs
  generalize cs.dropWhile isWordChar = after at hsplit hend
  subst hsplit
  rw [readScalar_append_word hend] at h
  obtain ⟨p, hp, heq⟩ := Option.map_eq_some_iff.mp h
  obtain ⟨rfl, rfl⟩ := Prod.mk.inj heq
  -- nothing of the word is left over, for that would be a word character after the value
  have hnil : p.2 = [] := by
    cases hrest' : p.2 with
    | nil => rfl
    | cons c more =>
      have hc : isWordChar c = true := by
        refine hall c ((readScalar_suffix (show readScalar w = some (p.1, p.2) from hp)).mem ?_)
        rw [hrest']
        exact List.mem_cons_self
      rw [hrest'] at hrest
      exact absurd hrest (by simp [startsWord, hc])
  refine ⟨w, ?_, ?_⟩
  · rw [hnil, List.nil_append, tokens_word hall hne hend]
  · show readScalar w = some (p.1, [])
    rw [hp, ← hnil]

/-- Nothing is read of an empty text. -/
theorem readValue_nil (depth : Nat) : readValue depth [] = none := by
  cases depth <;> rfl

/-- A bracket was read as an array of the values inside. -/
theorem parses_of_readArray {depth : Nat} (hinner : ValueSound depth) {tail rest : List Char}
    {v : Json} (h : readValue (depth + 1) ('[' :: tail) = some (v, rest)) :
    ∃ ts, tokens ('[' :: tail) = ts ++ tokens rest
      ∧ Parses .reading (depth + 1) (.value v) ts := by
  rw [readValue] at h
  rw [tokens_mark (by decide)]
  split at h
  next tail' hclose =>
    obtain ⟨rfl, rfl⟩ := Prod.mk.inj (Option.some.inj h)
    refine ⟨[.mark '[', .mark ']'], ?_, .emptyArray⟩
    rw [tokens_of_skipBlank hclose (by decide)]
    rfl
  next =>
    obtain ⟨p, hp, heq⟩ := Option.map_eq_some_iff.mp h
    obtain ⟨rfl, rfl⟩ := Prod.mk.inj heq
    obtain ⟨ts, ws, hws, hts, hitems⟩ := parses_of_readItems hinner hp
    rw [tokens_skipBlank] at hts
    refine ⟨.mark '[' :: ts, congrArg _ hts, ?_⟩
    rw [hws]
    exact .array hitems

/-- A brace was read as an object of the members inside. -/
theorem parses_of_readObject {depth : Nat} (hinner : ValueSound depth) {tail rest : List Char}
    {v : Json} (h : readValue (depth + 1) ('\x7b' :: tail) = some (v, rest)) :
    ∃ ts, tokens ('\x7b' :: tail) = ts ++ tokens rest
      ∧ Parses .reading (depth + 1) (.value v) ts := by
  rw [readValue] at h
  rw [tokens_mark (by decide)]
  split at h
  next tail' hclose =>
    obtain ⟨rfl, rfl⟩ := Prod.mk.inj (Option.some.inj h)
    refine ⟨[.mark '\x7b', .mark '\x7d'], ?_, .emptyObject⟩
    rw [tokens_of_skipBlank hclose (by decide)]
    rfl
  next =>
    obtain ⟨p, hp, heq⟩ := Option.map_eq_some_iff.mp h
    obtain ⟨rfl, rfl⟩ := Prod.mk.inj heq
    obtain ⟨ts, ns, hns, hts, hmembers⟩ := parses_of_readMembers hinner hp
    rw [tokens_skipBlank] at hts
    refine ⟨.mark '\x7b' :: ts, congrArg _ hts, ?_⟩
    rw [hns]
    exact .object hmembers

/-- A value is sound if the values inside of it are. -/
theorem valueSound_of_inner {depth : Nat} (hinner : ∀ d, depth = d + 1 → ValueSound d) :
    ValueSound depth := by
  intro cs v rest h hrest
  cases cs with
  | nil =>
    rw [readValue_nil] at h
    cases h
  | cons c tail =>
    -- a value is a word, a literal, or starts with a bracket
    by_cases hword : isWordChar c = true
    · rw [readValue_word hword] at h
      have hstarts : startsWord (c :: tail) = true := hword
      obtain ⟨w, htokens, hw⟩ := word_of_readScalar hstarts h hrest
      exact ⟨[.word w], htokens, .word hw⟩
    by_cases htext : c = '"'
    · subst htext
      rw [readValue] at h
      obtain ⟨p, hp, heq⟩ := Option.map_eq_some_iff.mp h
      obtain ⟨rfl, rfl⟩ := Prod.mk.inj heq
      obtain ⟨body, htokens, hbody⟩ := text_of_readStringBody hp
      exact ⟨[.text body], htokens, .text hbody⟩
    by_cases harray : c = '['
    · subst harray
      cases depth with
      | zero => cases h
      | succ d => exact parses_of_readArray (hinner d rfl) h
    by_cases hobject : c = '\x7b'
    · subst hobject
      cases depth with
      | zero => cases h
      | succ d => exact parses_of_readObject (hinner d rfl) h
    · rw [readValue_mark (by simpa using hword) harray hobject htext] at h
      cases h

/-- Values that were read are derived, at any depth. -/
theorem parses_of_readValue (depth : Nat) : ValueSound depth := by
  induction depth with
  | zero => exact valueSound_of_inner fun d hd => by cases hd
  | succ depth ih =>
    -- the induction is on the depth: what is inside of a value is one level deeper
    refine valueSound_of_inner fun d hd => ?_
    cases hd
    exact ih

/-! ## What is derived is read -/

/-- The reader finds a part in every text that starts with its tokens, and it leaves the rest. -/
def Reads (depth : Nat) : Part → List Token → Prop
  | .value v, ts => ∀ {cs : List Char} {us : List Token}, tokens cs = ts ++ us →
      ∃ rest, readValue depth (skipBlank cs) = some (v, rest) ∧ tokens rest = us
        ∧ rest.length < cs.length
  | .items vs, ts => ∀ {cs : List Char} {us : List Token} {fuel : Nat} (read : List Json),
      tokens cs = ts ++ us → cs.length ≤ fuel →
      ∃ rest, readItems (readValue depth) fuel read cs = some (read.reverse ++ vs, rest)
        ∧ tokens rest = us ∧ rest.length < cs.length
  | .members ms, ts => ∀ {cs : List Char} {us : List Token} {fuel : Nat}
      (read : List (String × Json)), tokens cs = ts ++ us → cs.length ≤ fuel →
      ∃ rest, readMembers (readValue depth) fuel read cs = some (read.reverse ++ ms, rest)
        ∧ tokens rest = us ∧ rest.length < cs.length

theorem length_skipBlank_le (cs : List Char) : (skipBlank cs).length ≤ cs.length :=
  (List.dropWhile_suffix _).length_le

/-- The characters of a mark that a text starts with. -/
theorem skipBlank_of_tokens_mark {cs : List Char} {c : Char} {us : List Token}
    (h : tokens cs = .mark c :: us) :
    ∃ rest, skipBlank cs = c :: rest ∧ tokens rest = us ∧ rest.length < cs.length := by
  obtain ⟨rest, hlexes, hrest⟩ := lexes_of_tokens h (by simp)
  have hlength := Nat.lt_of_lt_of_le hlexes.length_lt (length_skipBlank_le cs)
  generalize skipBlank cs = front at hlexes
  cases hlexes with
  | mark hc => exact ⟨rest, rfl, hrest, hlength⟩

/-- The characters of a literal that a text starts with. -/
theorem skipBlank_of_tokens_text {cs body : List Char} {us : List Token}
    (h : tokens cs = .text body :: us) :
    ∃ rest, skipBlank cs = '"' :: (body ++ '"' :: rest) ∧ tokens rest = us
      ∧ rest.length < cs.length := by
  obtain ⟨rest, hlexes, hrest⟩ := lexes_of_tokens h (by simp)
  have hlength := Nat.lt_of_lt_of_le hlexes.length_lt (length_skipBlank_le cs)
  generalize skipBlank cs = front at hlexes
  cases hlexes with
  | text hbody => exact ⟨rest, rfl, hrest, hlength⟩

/-- A text that starts with a word is read as the value of the word. -/
theorem readValue_of_tokens_word {cs w : List Char} {us : List Token}
    (h : tokens cs = .word w :: us) {v : Json} (hw : Lexicon.reading.word w v) (depth : Nat) :
    ∃ rest, readValue depth (skipBlank cs) = some (v, rest) ∧ tokens rest = us
      ∧ rest.length < cs.length := by
  obtain ⟨rest, hlexes, hrest⟩ := lexes_of_tokens h (by simp)
  have hlength := Nat.lt_of_lt_of_le hlexes.length_lt (length_skipBlank_le cs)
  refine ⟨rest, ?_, hrest, hlength⟩
  generalize skipBlank cs = front at hlexes
  cases hlexes with
  | word hall hne hend =>
    -- what follows the word does not matter to its value
    have hread : readScalar (w ++ rest) = some (v, rest) := by
      rw [readScalar_append_word hend, show readScalar w = some (v, []) from hw]
      rfl
    obtain ⟨c, more, rfl⟩ := List.exists_cons_of_ne_nil hne
    rw [List.cons_append] at hread ⊢
    rw [readValue_word (hall c List.mem_cons_self), hread]

/-- An array that is not empty is read item by item. -/
theorem readValue_array {tail : List Char} (h : ∀ rest, skipBlank tail ≠ ']' :: rest)
    (depth : Nat) :
    readValue (depth + 1) ('[' :: tail)
      = (readItems (readValue depth) (skipBlank tail).length [] (skipBlank tail)).map
        fun r => (.arr r.1, r.2) := by
  rw [readValue]
  split
  next rest heq => exact absurd heq (h rest)
  next => rfl

/-- An object that is not empty is read member by member. -/
theorem readValue_object {tail : List Char} (h : ∀ rest, skipBlank tail ≠ '\x7d' :: rest)
    (depth : Nat) :
    readValue (depth + 1) ('\x7b' :: tail)
      = (readMembers (readValue depth) (skipBlank tail).length [] (skipBlank tail)).map
        fun r => (.obj r.1, r.2) := by
  rw [readValue]
  split
  next rest heq => exact absurd heq (h rest)
  next => rfl

/-- A text that starts with framed tokens does not start with a closing bracket. -/
theorem Framed.skipBlank_ne {ts us : List Token} (h : Framed ts) {tail : List Char}
    (htail : tokens tail = ts ++ us) {c : Char} (hc : IsClosing c) (rest : List Char) :
    skipBlank tail ≠ c :: rest := by
  intro heq
  obtain ⟨t, more, rfl, hfirst⟩ := h.first
  have hmark : IsMark c := by rcases hc with rfl | rfl <;> decide
  rw [tokens_of_skipBlank heq hmark] at htail
  exact hfirst c hc (List.cons.inj htail).1.symm

section Steps

variable {depth : Nat} {v : Json} {vs : List Json} {ms : List (String × Json)} {ts us : List Token}

/-- A literal is read as its value. -/
theorem reads_text {body : List Char} {s : String} (h : Lexicon.reading.text body s) :
    Reads depth (.value (.str s)) [.text body] := by
  intro cs us htokens
  obtain ⟨rest, hcs, hrest⟩ := skipBlank_of_tokens_text htokens
  refine ⟨rest, ?_, hrest⟩
  rw [hcs, readValue, readStringBody_append h]
  rfl

theorem reads_emptyArray : Reads (depth + 1) (.value (.arr [])) [.mark '[', .mark ']'] := by
  intro cs us htokens
  obtain ⟨tail, hcs, htail, hshort⟩ := skipBlank_of_tokens_mark htokens
  obtain ⟨rest, hclose, hrest, hlength⟩ := skipBlank_of_tokens_mark htail
  refine ⟨rest, ?_, hrest, hlength.trans hshort⟩
  rw [hcs, readValue, hclose]
  rfl

theorem reads_emptyObject : Reads (depth + 1) (.value (.obj [])) [.mark '\x7b', .mark '\x7d'] := by
  intro cs us htokens
  obtain ⟨tail, hcs, htail, hshort⟩ := skipBlank_of_tokens_mark htokens
  obtain ⟨rest, hclose, hrest, hlength⟩ := skipBlank_of_tokens_mark htail
  refine ⟨rest, ?_, hrest, hlength.trans hshort⟩
  rw [hcs, readValue, hclose]
  rfl

/-- An array is read if its items are. -/
theorem reads_array (hframed : Framed ts) (h : Reads depth (.items vs) ts) :
    Reads (depth + 1) (.value (.arr vs)) (.mark '[' :: ts) := by
  intro cs us htokens
  obtain ⟨tail, hcs, htail, hshort⟩ := skipBlank_of_tokens_mark htokens
  -- the tokens of items do not start with the closing bracket, so the array is not empty
  have hne := hframed.skipBlank_ne htail (Or.inl rfl)
  rw [← tokens_skipBlank] at htail
  obtain ⟨rest, hread, hrest, hlength⟩ := h [] htail (Nat.le_refl _)
  refine ⟨rest, ?_, hrest, ?_⟩
  · rw [hcs, readValue_array hne, hread]
    rfl
  · have hskip := length_skipBlank_le tail
    omega

/-- An object is read if its members are. -/
theorem reads_object (hframed : Framed ts) (h : Reads depth (.members ms) ts) :
    Reads (depth + 1) (.value (.obj ms)) (.mark '\x7b' :: ts) := by
  intro cs us htokens
  obtain ⟨tail, hcs, htail, hshort⟩ := skipBlank_of_tokens_mark htokens
  have hne := hframed.skipBlank_ne htail (Or.inr rfl)
  rw [← tokens_skipBlank] at htail
  obtain ⟨rest, hread, hrest, hlength⟩ := h [] htail (Nat.le_refl _)
  refine ⟨rest, ?_, hrest, ?_⟩
  · rw [hcs, readValue_object hne, hread]
    rfl
  · have hskip := length_skipBlank_le tail
    omega

/-! A value takes one character at least, so the fuel lasts for all items and members. -/

/-- The last item is read up to the bracket. -/
theorem reads_lastItem (h : Reads depth (.value v) ts) :
    Reads depth (.items [v]) (ts ++ [.mark ']']) := by
  intro cs us fuel read htokens hfuel
  rw [List.append_assoc] at htokens
  obtain ⟨after, hvalue, hafter, hshort⟩ := h htokens
  obtain ⟨rest, hclose, hrest, hlength⟩ := skipBlank_of_tokens_mark hafter
  -- the value is shorter than the text, so there is fuel for it
  obtain ⟨fuel, rfl⟩ : ∃ k, fuel = k + 1 := ⟨fuel - 1, by omega⟩
  refine ⟨rest, ?_, hrest, hlength.trans hshort⟩
  rw [readItems]
  simp only [hvalue, hclose]
  rw [List.reverse_cons]

/-- An item is read up to the comma, and the others after it. -/
theorem reads_nextItem (h : Reads depth (.value v) ts) (hs : Reads depth (.items vs) us) :
    Reads depth (.items (v :: vs)) (ts ++ .mark ',' :: us) := by
  intro cs more fuel read htokens hfuel
  rw [List.append_assoc] at htokens
  obtain ⟨after, hvalue, hafter, hshort⟩ := h htokens
  obtain ⟨tail, hcomma, htail, hlength⟩ := skipBlank_of_tokens_mark hafter
  obtain ⟨fuel, rfl⟩ : ∃ k, fuel = k + 1 := ⟨fuel - 1, by omega⟩
  -- the rest is shorter by the value and the comma, and so is the fuel that it takes
  obtain ⟨rest, hread, hrest, hlast⟩ := hs (v :: read) htail (show tail.length ≤ fuel by omega)
  refine ⟨rest, ?_, hrest, by omega⟩
  rw [readItems]
  simp only [hvalue, hcomma]
  rw [hread, List.reverse_cons, List.append_assoc]
  rfl

/-- The last member is read up to the brace. -/
theorem reads_lastMember {body : List Char} {key : String} (hkey : Lexicon.reading.text body key)
    (h : Reads depth (.value v) ts) :
    Reads depth (.members [(key, v)]) (.text body :: .mark ':' :: (ts ++ [.mark '\x7d'])) := by
  intro cs us fuel read htokens hfuel
  rw [List.cons_append, List.cons_append, List.append_assoc] at htokens
  obtain ⟨afterKey, hcs, hafterKey, hkeyShort⟩ := skipBlank_of_tokens_text htokens
  obtain ⟨afterColon, hcolon, hafterColon, hcolonShort⟩ := skipBlank_of_tokens_mark hafterKey
  obtain ⟨after, hvalue, hafter, hshort⟩ := h hafterColon
  obtain ⟨rest, hclose, hrest, hlength⟩ := skipBlank_of_tokens_mark hafter
  obtain ⟨fuel, rfl⟩ : ∃ k, fuel = k + 1 := ⟨fuel - 1, by omega⟩
  refine ⟨rest, ?_, hrest, by omega⟩
  rw [readMembers]
  simp only [hcs, readStringBody_append hkey, hcolon, hvalue, hclose]
  rw [List.reverse_cons]

/-- A member is read up to the comma, and the others after it. -/
theorem reads_nextMember {body : List Char} {key : String} (hkey : Lexicon.reading.text body key)
    (h : Reads depth (.value v) ts) (hs : Reads depth (.members ms) us) :
    Reads depth (.members ((key, v) :: ms))
      (.text body :: .mark ':' :: (ts ++ .mark ',' :: us)) := by
  intro cs more fuel read htokens hfuel
  rw [List.cons_append, List.cons_append, List.append_assoc] at htokens
  obtain ⟨afterKey, hcs, hafterKey, hkeyShort⟩ := skipBlank_of_tokens_text htokens
  obtain ⟨afterColon, hcolon, hafterColon, hcolonShort⟩ := skipBlank_of_tokens_mark hafterKey
  obtain ⟨after, hvalue, hafter, hshort⟩ := h hafterColon
  obtain ⟨tail, hcomma, htail, hlength⟩ := skipBlank_of_tokens_mark hafter
  obtain ⟨fuel, rfl⟩ : ∃ k, fuel = k + 1 := ⟨fuel - 1, by omega⟩
  obtain ⟨rest, hread, hrest, hlast⟩ :=
    hs ((key, v) :: read) htail (show tail.length ≤ fuel by omega)
  refine ⟨rest, ?_, hrest, by omega⟩
  rw [readMembers]
  simp only [hcs, readStringBody_append hkey, hcolon, hvalue, hcomma]
  rw [hread, List.reverse_cons, List.append_assoc]
  rfl

end Steps

/-- What is derived is read, in any text that goes on with something else. -/
theorem Parses.reads {depth : Nat} {part : Part} {ts : List Token}
    (h : Parses .reading depth part ts) : Reads depth part ts := by
  induction h with
  | word hw => exact fun htokens => readValue_of_tokens_word htokens hw _
  | text hbody => exact reads_text hbody
  | emptyArray => exact reads_emptyArray
  | array hitems ih => exact reads_array hitems.framed ih
  | emptyObject => exact reads_emptyObject
  | object hmembers ih => exact reads_object hmembers.framed ih
  | lastItem _ ih => exact reads_lastItem ih
  | nextItem _ _ ih ihs => exact reads_nextItem ih ihs
  | lastMember hkey _ ih => exact reads_lastMember hkey ih
  | nextMember hkey _ _ ih ihs => exact reads_nextMember hkey ih ihs

/-! ## Texts -/

/-- Only blank texts have no tokens. -/
theorem tokens_eq_nil_iff (cs : List Char) : tokens cs = [] ↔ skipBlank cs = [] := by
  constructor
  · intro h
    by_contra hne
    rcases exists_lexes hne with ⟨t, rest, hlexes⟩ | hunclosed
    · rw [← tokens_skipBlank, hlexes.tokens_eq] at h
      cases h
    · rw [h] at hunclosed
      cases hunclosed
  · intro h
    rw [← tokens_skipBlank, h, tokens]

/--
**The reader is the grammar**: it accepts the texts whose tokens are derived within the depth that
is allowed, and reads them as the value of the derivation.
-/
theorem readChars?_eq_some_iff (cs : List Char) (v : Json) :
    readChars? cs = some v ↔ Parses .reading maxDepth (.value v) (tokens cs) := by
  unfold readChars?
  constructor
  · -- nothing but blanks follows the value, so its tokens are all there are
    intro h
    split at h
    next w rest hread =>
      split at h
      next hblank =>
        rw [List.isEmpty_iff] at hblank
        have hend : tokens rest = [] := (tokens_eq_nil_iff rest).mpr hblank
        have hword : startsWord rest = false := startsWord_of_skipBlank (by rw [hblank]; rfl)
        obtain ⟨ts, hts, hparses⟩ := parses_of_readValue maxDepth hread hword
        rw [tokens_skipBlank, hend, List.append_nil] at hts
        rw [hts, ← Option.some.inj h]
        exact hparses
      next => cases h
    next => cases h
  · intro h
    have htokens : tokens cs = tokens cs ++ [] := (List.append_nil _).symm
    obtain ⟨rest, hread, hrest, -⟩ := h.reads htokens
    simp only [hread]
    rw [(tokens_eq_nil_iff rest).mp hrest]
    rfl

/-- **Texts with the same tokens are read alike.** -/
theorem readChars?_congr {cs ds : List Char} (h : tokens cs = tokens ds) :
    readChars? cs = readChars? ds := by
  refine Option.ext fun v => ?_
  rw [readChars?_eq_some_iff, readChars?_eq_some_iff, h]

/-- What is read is built as JSON is. -/
theorem isShaped_of_readChars? {cs : List Char} {v : Json} (h : readChars? cs = some v) :
    IsShaped cs :=
  ⟨maxDepth, v, ((readChars?_eq_some_iff cs v).mp h).any⟩

end SourceAtlas.Json
