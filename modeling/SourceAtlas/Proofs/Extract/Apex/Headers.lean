import SourceAtlas.Proofs.Extract.Apex.Layout

/-!
# Which header of a trigger is found

The header is searched in the text in which words are masked, strings and comments included, and
the first one counts only if it starts in code. So a header in a comment or a string hides the ones
behind it: `mask_header` says exactly when the first header in code is found.

* **The form.** `headerAt?` reads the headers of the form that `HeaderText` has, and no others
  (`headerAt?_eq_some_iff`). A name ends where blanks start, so a text is a header in one way only.
* **The search.** From each place on, the search comes to the first header that starts there or
  behind (`firstHeader?_isFirst`, `firstHeader?_eq_none`), by induction on what is left of the text.
-/

namespace SourceAtlas.Extract.Apex

open Buffer Utf8 InPlace
open Chars (byteLength byteLength_nil byteLength_cons byteLength_append byteLength_concat)

/-! ## Blanks and words -/

/-- The code points of blanks. -/
def blankCodes : List Nat :=
  [9, 10, 11, 12, 13, 32, 133, 160, 5760, 8192, 8193, 8194, 8195, 8196, 8197, 8198, 8199, 8200,
   8201, 8202, 8232, 8233, 8239, 8287, 12288]

/-- Whitespace is one of a few code points. -/
theorem mem_blankCodes {n : Nat} (h : Text.memBoundaries Text.whitespace n = true) :
    n ∈ blankCodes := by
  simp only [Text.whitespace, Text.memBoundaries] at h
  simp only [blankCodes, List.mem_cons, List.not_mem_nil, or_false]
  -- the table has ranges, and each of them is enumerated
  grind

/-- No blank is part of a word. -/
theorem isWordChar_of_whitespace {c : Char} (h : Text.isWhitespace c = true) :
    Text.isWordChar c = false := by
  have hcodes : ∀ n ∈ blankCodes, Text.isWordChar (Char.ofNat n) = false := by decide +kernel
  have hc := hcodes c.toNat (mem_blankCodes h)
  rwa [Char.ofNat_toNat] at hc

/-- No character of a word is a blank. -/
theorem isWhitespace_of_word {c : Char} (h : Text.isWordChar c = true) :
    Text.isWhitespace c = false := by
  rw [← Bool.not_eq_true]
  intro hblank
  rw [isWordChar_of_whitespace hblank] at h
  cases h

/-- One or more characters of a class. -/
def Of (p : Char → Bool) (cs : List Char) : Prop :=
  cs ≠ [] ∧ ∀ c ∈ cs, p c = true

/-- A text that does not go on with a character of a class. -/
def StopsAt (p : Char → Bool) (cs : List Char) : Prop :=
  ∀ c ∈ cs.head?, p c = false

section

variable {p q : Char → Bool} {part rest : List Char}

/-- A part of one class ends what is read of another. -/
theorem Of.stopsAt_append (h : Of p part) (hclasses : ∀ {c}, p c = true → q c = false) :
    StopsAt q (part ++ rest) := by
  intro c hc
  rw [List.head?_append_of_ne_nil _ h.1] at hc
  exact hclasses (h.2 c (List.mem_of_mem_head? hc))

/-- A part is dropped up to where it stops. -/
theorem dropWhile_part (hpart : ∀ c ∈ part, p c = true) (hrest : StopsAt p rest) :
    (part ++ rest).dropWhile p = rest := by
  rw [List.dropWhile_append_of_pos hpart]
  cases rest with
  | nil => rfl
  | cons c rest => rw [List.dropWhile_cons, hrest c rfl, if_neg Bool.false_ne_true]

/-- It is taken up to there. -/
theorem takeWhile_part (hpart : ∀ c ∈ part, p c = true) (hrest : StopsAt p rest) :
    (part ++ rest).takeWhile p = part := by
  have hsplit := List.takeWhile_append_dropWhile (p := p) (l := part ++ rest)
  rw [dropWhile_part hpart hrest] at hsplit
  exact List.append_cancel_right hsplit

/-- Blanks are passed up to where they stop. -/
theorem afterBlanks?_part (h : Of Text.isWhitespace part) (hrest : StopsAt Text.isWhitespace rest) :
    afterBlanks? (part ++ rest) = some rest := by
  have hdrop := dropWhile_part h.2 hrest
  cases part with
  | nil => exact absurd rfl h.1
  | cons c part =>
    have hc := h.2 c (List.mem_cons_self ..)
    rw [List.cons_append, List.dropWhile_cons, if_pos hc] at hdrop
    rw [List.cons_append, afterBlanks?, if_pos hc, hdrop]

/-- A word is read up to where it stops. -/
theorem word?_part (h : Of Text.isWordChar part) (hrest : StopsAt Text.isWordChar rest) :
    word? (part ++ rest) = some (part, rest) := by
  have hne : part.isEmpty = false := by
    rw [List.isEmpty_eq_false_iff]
    exact h.1
  rw [word?, takeWhile_part h.2 hrest, dropWhile_part h.2 hrest, hne]
  rfl

end

/-! ## Keywords -/

/-- A keyword in any case. -/
def Spells (keyword : List Char) (cs : List Char) : Prop :=
  cs.map Chars.asciiLower = keyword

/-- A letter matches the small form of itself. -/
theorem matchesLetter_lower (c : Char) : matchesLetter (Chars.asciiLower c) c = true := by
  rw [matchesLetter, beq_self_eq_true, Bool.true_or, Bool.true_or]

/-- A keyword is passed, however it is spelled. -/
theorem afterWord?_spells {keyword word rest : List Char} (h : Spells keyword word) :
    afterWord? keyword (word ++ rest) = some rest := by
  obtain rfl := h
  induction word with
  | nil => rfl
  | cons c word ih =>
    rw [List.map_cons, List.cons_append, afterWord?, if_pos (matchesLetter_lower c), ih]

/-- Only the letters `s` and `k` have other forms than their own two. -/
theorem spells_of_afterWord? {keyword cs rest : List Char} (hs : 's' ∉ keyword)
    (hk : 'k' ∉ keyword) (h : afterWord? keyword cs = some rest) :
    ∃ word, cs = word ++ rest ∧ Spells keyword word := by
  induction keyword generalizing cs with
  | nil => exact ⟨[], Option.some.inj h, rfl⟩
  | cons l keyword ih =>
    rw [List.mem_cons, not_or] at hs hk
    cases cs with
    | nil => cases h
    | cons c cs =>
      rw [afterWord?] at h
      split at h
      · rename_i hc
        obtain ⟨word, rfl, hword⟩ := ih hs.2 hk.2 h
        have hlower : Chars.asciiLower c = l := by
          -- the long s and the sign of the kelvin match too, but neither letter is in the keyword
          rcases matchesLetter_cases hc with hlower | ⟨rfl, -⟩ | ⟨rfl, -⟩
          · exact hlower
          · exact absurd rfl hs.1
          · exact absurd rfl hk.1
        refine ⟨c :: word, rfl, ?_⟩
        rw [Spells, List.map_cons, hlower, hword]
      · cases h

/-- A keyword of letters is a word. -/
theorem Spells.of_word {keyword cs : List Char} (h : Spells keyword cs) (hne : keyword ≠ [])
    (hletters : keyword.all Text.isAsciiLetter = true) : Of Text.isWordChar cs := by
  refine ⟨?_, fun c hc => ?_⟩
  · rintro rfl
    exact hne h.symm
  · have hlower : Chars.asciiLower c ∈ keyword := h ▸ List.mem_map_of_mem hc
    exact isWordChar_of_matchesLetter (List.all_eq_true.mp hletters _ hlower)
      (matchesLetter_lower c)

/-! ## The form of a header -/

/-- The parts of a header `trigger Name on Object (events)`, with the blanks between them. -/
structure HeaderText where
  keyword : List Char
  beforeName : List Char
  name : List Char
  beforeOn : List Char
  onWord : List Char
  beforeObject : List Char
  object : List Char
  beforeEvents : List Char
  events : List Char
  keyword_spells : Spells "trigger".toList keyword
  beforeName_blank : Of Text.isWhitespace beforeName
  name_word : Of Text.isWordChar name
  beforeOn_blank : Of Text.isWhitespace beforeOn
  onWord_spells : Spells "on".toList onWord
  beforeObject_blank : Of Text.isWhitespace beforeObject
  object_word : Of Text.isWordChar object
  beforeEvents_blank : ∀ c ∈ beforeEvents, Text.isWhitespace c = true
  events_open : ')' ∉ events

namespace HeaderText

/-- The events with their parentheses, before `rest`. -/
def eventsBefore (form : HeaderText) (rest : List Char) : List Char :=
  form.beforeEvents ++ ('(' :: (form.events ++ (')' :: rest)))

/-- A header before `rest`. -/
def before (form : HeaderText) (rest : List Char) : List Char :=
  form.keyword ++ (form.beforeName ++ (form.name ++ (form.beforeOn ++ (form.onWord ++
    (form.beforeObject ++ (form.object ++ form.eventsBefore rest))))))

/-- The text of a header alone. -/
def chars (form : HeaderText) : List Char :=
  form.before []

/-- It stands in front of what follows. -/
theorem before_eq (form : HeaderText) (rest : List Char) :
    form.before rest = form.chars ++ rest := by
  simp only [chars, before, eventsBefore, List.append_assoc, List.cons_append, List.nil_append]

/-- A header is not empty. -/
theorem chars_ne_nil (form : HeaderText) : form.chars ≠ [] :=
  List.append_ne_nil_of_left_ne_nil
    (form.keyword_spells.of_word (by decide) (by decide)).1 _

/-- The name of the object ends before the events. -/
theorem eventsBefore_stops (form : HeaderText) (rest : List Char) :
    StopsAt Text.isWordChar (form.eventsBefore rest) := by
  rw [eventsBefore]
  intro c hc
  by_cases hblank : form.beforeEvents = []
  · rw [hblank] at hc
    obtain rfl : '(' = c := Option.some.inj hc
    decide
  · exact Of.stopsAt_append ⟨hblank, form.beforeEvents_blank⟩ isWordChar_of_whitespace c hc

end HeaderText

/-- The parts of a header are read where they are written. -/
theorem headerAt?_before (form : HeaderText) (rest : List Char) :
    headerAt? (form.before rest) = some (form.name, form.object, rest) := by
  have hon : Of Text.isWordChar form.onWord :=
    form.onWord_spells.of_word (by decide) (by decide)
  have hopen : (form.eventsBefore rest).dropWhile Text.isWhitespace
      = '(' :: (form.events ++ (')' :: rest)) := by
    apply dropWhile_part form.beforeEvents_blank
    intro c hc
    obtain rfl : '(' = c := Option.some.inj hc
    decide
  have hclose : (form.events ++ (')' :: rest)).dropWhile (· != ')') = ')' :: rest := by
    apply dropWhile_part
    · intro c hc
      rw [bne_iff_ne]
      rintro rfl
      exact form.events_open hc
    · intro c hc
      obtain rfl : ')' = c := Option.some.inj hc
      decide
  -- each part stops where the next one starts, since they are of different classes
  simp only [headerAt?, HeaderText.before, Option.bind_eq_bind, Option.bind_some,
    afterWord?_spells form.keyword_spells, afterWord?_spells form.onWord_spells,
    afterBlanks?_part form.beforeName_blank (form.name_word.stopsAt_append isWhitespace_of_word),
    word?_part form.name_word (form.beforeOn_blank.stopsAt_append isWordChar_of_whitespace),
    afterBlanks?_part form.beforeOn_blank (hon.stopsAt_append isWhitespace_of_word),
    afterBlanks?_part form.beforeObject_blank
      (form.object_word.stopsAt_append isWhitespace_of_word),
    word?_part form.object_word (form.eventsBefore_stops rest), hopen, hclose]

/-- What is dropped before a character is a part of its own. -/
theorem split_of_dropWhile {p : Char → Bool} {c : Char} {cs rest : List Char}
    (h : cs.dropWhile p = c :: rest) : ∃ part, cs = part ++ c :: rest ∧ ∀ d ∈ part, p d = true :=
  ⟨cs.takeWhile p, by rw [← h, List.takeWhile_append_dropWhile],
    fun _ hd => List.mem_takeWhile_imp hd⟩

/-- The headers that are read are those of the form. -/
theorem headerAt?_eq_some_iff {cs name object rest : List Char} :
    headerAt? cs = some (name, object, rest) ↔
      ∃ form : HeaderText, cs = form.before rest ∧ form.name = name ∧ form.object = object := by
  constructor
  · intro h
    simp only [headerAt?, Option.bind_eq_bind, Option.bind_eq_some_iff] at h
    -- the rests are what is left behind each part, and each part is read off from two of them
    obtain ⟨rest₁, h₁, rest₂, h₂, ⟨_, rest₃⟩, h₃, rest₄, h₄, h⟩ := h
    obtain ⟨rest₅, h₅, rest₆, h₆, ⟨_, rest₇⟩, h₇, h⟩ := h
    split at h
    · rename_i events hopen
      split at h
      · rename_i hclose
        simp only [Option.some.injEq, Prod.mk.injEq] at h
        obtain ⟨rfl, rfl, rfl⟩ := h
        obtain ⟨keyword, rfl, hkeyword⟩ := spells_of_afterWord? (by decide) (by decide) h₁
        obtain ⟨beforeName, rfl, hbeforeName⟩ := afterBlanks?_eq_some h₂
        obtain ⟨rfl, hname⟩ := word?_eq_some h₃
        obtain ⟨beforeOn, rfl, hbeforeOn⟩ := afterBlanks?_eq_some h₄
        obtain ⟨onWord, rfl, hon⟩ := spells_of_afterWord? (by decide) (by decide) h₅
        obtain ⟨beforeObject, rfl, hbeforeObject⟩ := afterBlanks?_eq_some h₆
        obtain ⟨rfl, hobject⟩ := word?_eq_some h₇
        obtain ⟨beforeEvents, rfl, hbeforeEvents⟩ := split_of_dropWhile hopen
        obtain ⟨events, rfl, hevents⟩ := split_of_dropWhile hclose
        have hopened : ')' ∉ events := fun hmem => absurd (hevents ')' hmem) (by decide)
        exact ⟨⟨keyword, beforeName, _, beforeOn, onWord, beforeObject, _, beforeEvents, events,
          hkeyword, hbeforeName, hname, hbeforeOn, hon, hbeforeObject, hobject, hbeforeEvents,
          hopened⟩, rfl, rfl, rfl⟩
      · cases h
    · cases h
  · rintro ⟨form, rfl, rfl, rfl⟩
    exact headerAt?_before form rest

/-! ## The search -/

/-- A header within a text, where a word can start. -/
def HeaderIn (text : List Char) (h : TriggerHeader) : Prop :=
  ∃ (before : List Char) (form : HeaderText) (after : List Char),
    text = before ++ form.before after ∧ isBoundary before.getLast? = true ∧
      h = ⟨String.ofList form.name, String.ofList form.object, byteLength before,
        byteLength before + byteLength form.chars⟩

/-- A text without bytes is empty. -/
theorem eq_nil_of_byteLength {cs : List Char} (h : byteLength cs = 0) : cs = [] := by
  cases cs with
  | nil => rfl
  | cons c cs =>
    have hpos := c.utf8Size_pos
    rw [byteLength_cons] at h
    omega

/-- A prefix of a text is known by its bytes. -/
theorem eq_of_byteLength {cs ds rest rest' : List Char} (h : cs ++ rest = ds ++ rest')
    (hlength : byteLength cs = byteLength ds) : cs = ds ∧ rest = rest' := by
  rcases List.append_eq_append_iff.mp h with ⟨part, rfl, rfl⟩ | ⟨part, rfl, rfl⟩
  · rw [byteLength_append] at hlength
    obtain rfl := eq_nil_of_byteLength (by omega : byteLength part = 0)
    exact ⟨(List.append_nil _).symm, rfl⟩
  · rw [byteLength_append] at hlength
    obtain rfl := eq_nil_of_byteLength (by omega : byteLength part = 0)
    exact ⟨List.append_nil _, rfl⟩

section

variable {before rest : List Char} {h : TriggerHeader}

/-- The header at a place of a text. -/
theorem headerIn_at (hstart : h.start = byteLength before) :
    HeaderIn (before ++ rest) h ↔
      isBoundary before.getLast? = true ∧ ∃ name object after,
        headerAt? rest = some (name, object, after) ∧
          h = ⟨String.ofList name, String.ofList object, byteLength before,
            byteLength before + (byteLength rest - byteLength after)⟩ := by
  constructor
  · rintro ⟨before', form, after, htext, hboundary, rfl⟩
    obtain ⟨rfl, rfl⟩ := eq_of_byteLength htext hstart.symm
    refine ⟨hboundary, form.name, form.object, after, headerAt?_before form after, ?_⟩
    rw [form.before_eq, byteLength_append, Nat.add_sub_cancel]
  · rintro ⟨hboundary, name, object, after, hhere, rfl⟩
    obtain ⟨form, rfl, rfl, rfl⟩ := headerAt?_eq_some_iff.mp hhere
    refine ⟨before, form, after, rfl, hboundary, ?_⟩
    rw [form.before_eq, byteLength_append, Nat.add_sub_cancel]

/-- A header starts before a character, with it or behind it. -/
theorem headerIn_cons {c : Char} (hin : HeaderIn (before ++ c :: rest) h) :
    h.start < byteLength before ∨ h.start = byteLength before ∨
      byteLength (before ++ [c]) ≤ h.start := by
  obtain ⟨before', form, after, htext, -, rfl⟩ := hin
  show byteLength before' < _ ∨ byteLength before' = _ ∨ _ ≤ byteLength before'
  -- the header starts within the rest, or within what stands before
  rcases List.append_eq_append_iff.mp htext with ⟨part, rfl, hrest⟩ | ⟨part, rfl, -⟩
  · cases part with
    | nil =>
      rw [List.append_nil]
      exact .inr (.inl rfl)
    | cons d part =>
      obtain ⟨rfl, -⟩ := List.cons.inj hrest
      rw [byteLength_append, byteLength_append, byteLength_cons, byteLength_cons, byteLength_nil]
      omega
  · rw [byteLength_append]
    omega

/-- A header starts before the end of the text. -/
theorem headerIn_nil (hin : HeaderIn before h) : h.start < byteLength before := by
  obtain ⟨before', form, after, rfl, -, rfl⟩ := hin
  have hpos : byteLength form.chars ≠ 0 :=
    fun hzero => form.chars_ne_nil (eq_nil_of_byteLength hzero)
  show byteLength before' < _
  rw [form.before_eq, byteLength_append, byteLength_append]
  omega

/-- At a place of the text, the search finds the header there, or there is none and it goes on. -/
theorem firstHeader?_cons (before rest : List Char) (c : Char) :
    (∃ h, firstHeader? before.getLast? (byteLength before) (c :: rest) = some h ∧
        HeaderIn (before ++ c :: rest) h ∧ h.start = byteLength before) ∨
      (firstHeader? before.getLast? (byteLength before) (c :: rest)
          = firstHeader? (before ++ [c]).getLast? (byteLength (before ++ [c])) rest ∧
        ∀ h, HeaderIn (before ++ c :: rest) h → h.start ≠ byteLength before) := by
  rw [firstHeader?, List.getLast?_concat, byteLength_concat]
  by_cases hboundary : isBoundary before.getLast? = true
  · rw [if_pos hboundary]
    cases hhere : headerAt? (c :: rest) with
    | some found =>
      obtain ⟨name, object, after⟩ := found
      refine .inl ⟨_, rfl, ?_, rfl⟩
      exact (headerIn_at rfl).mpr ⟨hboundary, name, object, after, hhere, rfl⟩
    | none =>
      refine .inr ⟨rfl, fun h hin hstart => ?_⟩
      obtain ⟨-, name, object, after, hsome, -⟩ := (headerIn_at hstart).mp hin
      rw [hhere] at hsome
      cases hsome
  · rw [if_neg hboundary]
    exact .inr ⟨rfl, fun h hin hstart => hboundary ((headerIn_at hstart).mp hin).1⟩

/-- **The search comes to the first header** of those that start at a place or behind it. -/
theorem firstHeader?_isFirst
    (hfound : firstHeader? before.getLast? (byteLength before) rest = some h) :
    HeaderIn (before ++ rest) h ∧
      ∀ h', HeaderIn (before ++ rest) h' → byteLength before ≤ h'.start → h.start ≤ h'.start := by
  induction rest generalizing before with
  | nil => cases hfound
  | cons c rest ih =>
    rcases firstHeader?_cons before rest c with ⟨here, hhere, hin, hstart⟩ | ⟨hnext, hnone⟩
    · obtain rfl : here = h := Option.some.inj (hhere.symm.trans hfound)
      refine ⟨hin, fun h' _ hle => ?_⟩
      omega
    · have hrest := ih (hnext.symm.trans hfound)
      rw [List.append_assoc, List.singleton_append] at hrest
      refine ⟨hrest.1, fun h' hin' hle => hrest.2 h' hin' ?_⟩
      -- none starts here, so those from here on are those from the next character on
      have hcases := headerIn_cons hin'
      have hne := hnone h' hin'
      omega

/-- Where the search finds nothing, all headers start before the place. -/
theorem firstHeader?_eq_none
    (hnone : firstHeader? before.getLast? (byteLength before) rest = none)
    (hin : HeaderIn (before ++ rest) h) : h.start < byteLength before := by
  induction rest generalizing before with
  | nil =>
    rw [List.append_nil] at hin
    exact headerIn_nil hin
  | cons c rest ih =>
    rcases firstHeader?_cons before rest c with ⟨here, hhere, -⟩ | ⟨hnext, hnot⟩
    · rw [hnone] at hhere
      cases hhere
    · have hcases := headerIn_cons hin
      have hne := hnot h hin
      have hbehind : HeaderIn ((before ++ [c]) ++ rest) h := by
        rwa [List.append_assoc, List.singleton_append]
      have hlt := ih (hnext.symm.trans hnone) hbehind
      omega

end

/-- A header is known by its start. -/
theorem HeaderIn.eq_of_start {text : List Char} {h h' : TriggerHeader} (hin : HeaderIn text h)
    (hin' : HeaderIn text h') (hstart : h.start = h'.start) : h = h' := by
  obtain ⟨before, form, after, rfl, -, rfl⟩ := hin
  obtain ⟨-, name, object, rest, hhere, rfl⟩ := (headerIn_at hstart.symm).mp hin'
  -- at one place there is one header to read
  rw [headerAt?_before] at hhere
  obtain ⟨rfl, rfl, rfl⟩ : form.name = name ∧ form.object = object ∧ after = rest := by
    simpa using hhere
  rw [form.before_eq, byteLength_append, Nat.add_sub_cancel]

/-! ## Headers in code -/

/-- The text in which the header is searched. -/
def searched (text : String) : List Char :=
  cellChars (maskedWords text.toList)

/-- A header that starts in a span of code. -/
def InCode (text : List Char) (spans : List Span) (h : TriggerHeader) : Prop :=
  HeaderIn text h ∧ inSpans spans h.start = true

/-- The first of the headers in code. -/
def FirstInCode (text : List Char) (spans : List Span) (h : TriggerHeader) : Prop :=
  InCode text spans h ∧ ∀ h', InCode text spans h' → h.start ≤ h'.start

/-- From the start of a text, the first header of all is found. -/
theorem firstHeader?_eq_some_iff {text : List Char} {h : TriggerHeader} :
    firstHeader? none 0 text = some h ↔
      HeaderIn text h ∧ ∀ h', HeaderIn text h' → h.start ≤ h'.start := by
  constructor
  · intro hfound
    have hfirst : HeaderIn ([] ++ text) h ∧ _ := firstHeader?_isFirst hfound
    exact ⟨hfirst.1, fun h' hin => hfirst.2 h' hin (Nat.zero_le _)⟩
  · rintro ⟨hin, hleast⟩
    cases hfound : firstHeader? none 0 text with
    | none =>
      have hlt : h.start < byteLength [] := @firstHeader?_eq_none [] text h hfound hin
      exact absurd hlt (Nat.not_lt_zero _)
    | some found =>
      have hfirst : HeaderIn ([] ++ text) found ∧ _ := firstHeader?_isFirst hfound
      have hle := hfirst.2 h hin (Nat.zero_le _)
      rw [hfirst.1.eq_of_start hin (Nat.le_antisymm hle (hleast found hfirst.1))]

/--
**Only the first header of the text is looked at.** The header that is found is the first one in
code, and without one in code there is none. But the first header in code is found if and only if
no other starts before it in a comment or a string.
-/
theorem mask_header (text : String) :
    ∃ bytes spans, codeSpans (Text.bytes text) = .ok (bytes, spans) ∧
      (∀ h, (mask text).2 = some h → FirstInCode (searched text) spans h) ∧
      ((∀ h, ¬ InCode (searched text) spans h) → (mask text).2 = none) ∧
      ∀ h, FirstInCode (searched text) spans h →
        ((mask text).2 = some h ↔
          ∀ h', HeaderIn (searched text) h' → inSpans spans h'.start = false →
            h.start < h'.start) := by
  obtain ⟨spans, bytes, -, hscan, -, -, hmarks, -⟩ := exists_maskedWords text.toList
  rw [← bytes_eq_encode] at hscan hmarks
  -- the first header of the text counts, if it starts in a span
  have hmask : ∀ h, (mask text).2 = some h ↔
      (HeaderIn (searched text) h ∧ ∀ h', HeaderIn (searched text) h' → h.start ≤ h'.start) ∧
        inSpans spans h.start = true := by
    intro h
    have hheader : (mask text).2 = triggerHeader? (maskedWords text.toList) := rfl
    rw [hheader, triggerHeader?_eq hmarks, Option.filter_eq_some_iff, firstHeader?_eq_some_iff]
    rfl
  refine ⟨bytes, spans, hscan, fun h hfound => ?_, fun hnone => ?_, fun h hfirst => ?_⟩
  · obtain ⟨⟨hin, hleast⟩, hcode⟩ := (hmask h).mp hfound
    exact ⟨⟨hin, hcode⟩, fun h' hin' => hleast h' hin'.1⟩
  · rw [Option.eq_none_iff_forall_ne_some]
    intro h hfound
    obtain ⟨⟨hin, -⟩, hcode⟩ := (hmask h).mp hfound
    exact hnone h ⟨hin, hcode⟩
  · obtain ⟨⟨hin, hcode⟩, hleast⟩ := hfirst
    rw [hmask]
    constructor
    · -- the header that is found starts before every other
      rintro ⟨⟨-, hall⟩, -⟩ h' hin' hout
      have hle := hall h' hin'
      have hne : h.start ≠ h'.start := by
        intro heq
        rw [← heq, hcode] at hout
        cases hout
      omega
    · intro hbehind
      refine ⟨⟨hin, fun h' hin' => ?_⟩, hcode⟩
      -- another header is in code, where this one is the first, or it is not and starts behind
      cases hcode' : inSpans spans h'.start with
      | true => exact hleast h' ⟨hin', hcode'⟩
      | false => exact Nat.le_of_lt (hbehind h' hin' hcode')

/-- Whether a cell of the masked words is code tells whether its place is in a span. -/
theorem inSpans_of_grounded {content : List UInt8} {spans : List Span} {before rest : List Cell}
    {cell : Cell} (hmarks : Grounded content spans 0 (before ++ cell :: rest))
    (hchar : cell.char ∉ unmarked) : inSpans spans (byteLength (cellChars before)) = cell.code := by
  have hcell := (grounded_append.mp hmarks).2.1
  rw [Nat.zero_add] at hcell
  exact (hcell.marked hchar).1

/-- A header behind a string that reads like one is not found. -/
theorem mask_header_behindString :
    ∃ bytes spans,
      codeSpans (Text.bytes "'trigger T on A (x)'\ntrigger U on B (y)")
        = .ok (bytes, spans) ∧
      InCode (searched "'trigger T on A (x)'\ntrigger U on B (y)") spans
        ⟨"U", "B", 21, 39⟩ ∧
      (mask "'trigger T on A (x)'\ntrigger U on B (y)").2 = none := by
  obtain ⟨spans, bytes, -, hscan, -, -, hmarks, -⟩ :=
    exists_maskedWords "'trigger T on A (x)'\ntrigger U on B (y)".toList
  have hcells : maskedWords "'trigger T on A (x)'\ntrigger U on B (y)".toList
      = ("\"trigger T on A (x)\"".toList.map other ++ [plain '\n'])
        ++ plain 't' :: "rigger U on B (y)".toList.map plain := by
    decide +kernel
  have htext : searched "'trigger T on A (x)'\ntrigger U on B (y)"
      = "\"trigger T on A (x)\"\n".toList ++ "trigger U on B (y)".toList := by
    decide +kernel
  rw [hcells] at hmarks
  rw [← bytes_eq_encode] at hscan
  have hcode := inSpans_of_grounded hmarks (by decide)
  refine ⟨bytes, spans, hscan, ⟨?_, hcode⟩, by decide +kernel⟩
  rw [htext, headerIn_at (by decide)]
  exact ⟨by decide, "U".toList, "B".toList, [], by decide +kernel, by decide +kernel⟩

end SourceAtlas.Extract.Apex
