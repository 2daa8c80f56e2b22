import Mathlib.Data.List.SplitBy
import SourceAtlas.Proofs.Extract.Apex.Scan

/-!
# Keywords in the buffer and in the cells

Cells are masked run by run, each given the masked cells before it (`maskFrom`). In the buffer, a
turn reads its word from the text as written, where it stands at the same bytes: up to the end of
the masked cells the buffer holds what they hold, and from there on both hold what is still to be
masked (`maskSpan_code`). A stand-in is a span too, but no word of the text as written starts with
the bracket in its place (`maskSpan_standIn`).
-/

namespace SourceAtlas.Extract.Apex.InPlace

open Buffer Utf8
open Chars (byteLength byteLength_nil byteLength_cons byteLength_append byteLength_concat)

/-! ### Words, run by run -/

/-- Masks the words of some cells, after cells that come first, the nearest first. -/
def maskFrom (before cells : List Cell) : List Cell :=
  (cells.splitBy fun a b => a.inWord == b.inWord).foldl
    (fun before run => (maskRun before run).reverse ++ before) before

/-- All cells are masked with nothing before them. -/
theorem maskKeywords_eq (cells : List Cell) : maskKeywords cells = (maskFrom [] cells).reverse :=
  rfl

/-- Whether a word would go on from the cells before. -/
def joined (before : List Cell) : Bool :=
  (before.head?.map (isWordByte ·.char)).getD false

/-- The characters of cells that are listed backwards. -/
def front (before : List Cell) : List Char :=
  cellChars before.reverse

/-- The cell that comes first in the list stands last in the text. -/
theorem front_cons (cell : Cell) (before : List Cell) :
    front (cell :: before) = front before ++ [cell.char] := by
  rw [front, List.reverse_cons, cellChars_append]
  rfl

/-- Cells that are added stand behind the ones before. -/
theorem front_append (cells before : List Cell) :
    front (cells.reverse ++ before) = front before ++ cellChars cells := by
  rw [front, List.reverse_append, List.reverse_reverse, cellChars_append]
  rfl

/-- Whether the last thing before, blanks aside, is a dot. -/
def afterDot (before : List Cell) : Bool :=
  ((before.find? (!Text.isAsciiWhitespace ·.char)).map (·.char == '.')).getD false

/-- A run that ends where its cells change is masked as one. -/
theorem maskFrom_run {before run rest : List Cell} {word : Bool} (hne : run ≠ [])
    (hrun : ∀ cell ∈ run, cell.inWord = word) (hrest : ∀ cell ∈ rest.head?, cell.inWord ≠ word) :
    maskFrom before (run ++ rest) = maskFrom ((maskRun before run).reverse ++ before) rest := by
  have hchain : run.IsChain fun a b => (a.inWord == b.inWord) = true := by
    apply List.Pairwise.isChain
    apply List.pairwise_of_forall_mem_list
    intro a ha b hb
    rw [hrun a ha, hrun b hb, beq_self_eq_true]
  have hsplit : ∀ x ∈ run.getLast?, ∀ y ∈ rest.head?, (x.inWord == y.inWord) = false := by
    intro x hx y hy
    rw [hrun x (List.mem_of_mem_getLast? hx), beq_eq_false_iff_ne]
    exact (hrest y hy).symm
  rw [maskFrom, List.splitBy_append hsplit, List.splitBy_of_isChain hne hchain]
  rfl

/-- What is no word, or only the rest of one, stays. -/
theorem maskRun_keep {before run : List Cell} {cell : Cell}
    (h : cell.inWord = false ∨ joined before = true) :
    maskRun before (cell :: run) = cell :: run := by
  rcases h with h | h
  · simp [maskRun, h]
  · have : (before.head?.map (isWordByte ·.char)).getD false = true := h
    simp [maskRun, this]

/-- A word that starts at the run is masked as a whole. -/
theorem maskRun_word {before run : List Cell} {cell : Cell} (hcell : cell.inWord = true)
    (hjoined : joined before = false) :
    maskRun before (cell :: run)
      = (maskWord (afterDot before) (cellChars (cell :: run))).map plain := by
  have hhead : (before.head?.map (isWordByte ·.char)).getD false = false := hjoined
  rw [maskRun]
  simp only [List.head?_cons, Option.map_some, Option.getD_some, hcell, hhead, Bool.not_false,
    Bool.and_self, if_true]
  rfl

/-- The longest run at the start of which all satisfy a test, and the rest. -/
theorem exists_run {α : Type} (p : α → Bool) (xs : List α) :
    ∃ run rest, xs = run ++ rest ∧ (∀ x ∈ run, p x = true) ∧ ∀ x ∈ rest.head?, p x = false := by
  refine ⟨xs.takeWhile p, xs.dropWhile p, List.takeWhile_append_dropWhile.symm,
    fun x hx => List.mem_takeWhile_imp hx, fun x hx => ?_⟩
  have hhead := List.head?_dropWhile_not p xs
  rw [Option.mem_def.mp hx] at hhead
  exact hhead

/-- A cell that stays moves over to those before, and its run may go on behind it. -/
theorem maskFrom_keep {before rest : List Cell} {cell : Cell}
    (h : cell.inWord = false ∨ joined before = true) :
    maskFrom before (cell :: rest) = maskFrom (cell :: before) rest := by
  obtain ⟨run, after, hsplit, hrun, hafter⟩ := exists_run (fun c => c.inWord == cell.inWord) rest
  have hsame : ∀ c ∈ run, c.inWord = cell.inWord := fun c hc => beq_iff_eq.mp (hrun c hc)
  have hother : ∀ c ∈ after.head?, c.inWord ≠ cell.inWord :=
    fun c hc => beq_eq_false_iff_ne.mp (hafter c hc)
  have hall : ∀ c ∈ cell :: run, c.inWord = cell.inWord := List.forall_mem_cons.mpr ⟨rfl, hsame⟩
  have hwhole : maskFrom before (cell :: run ++ after) = _ :=
    maskFrom_run (List.cons_ne_nil cell run) hall hother
  rw [maskRun_keep h, List.cons_append, ← hsplit] at hwhole
  rw [hwhole]
  cases run with
  | nil => rw [hsplit]; rfl
  | cons c run =>
    -- the rest of the run is kept too: it is no word, or goes on from the cell
    have hkeep : c.inWord = false ∨ joined (cell :: before) = true := by
      cases hc : cell.inWord with
      | false => exact .inl (by rw [hsame c (List.mem_cons_self ..), hc])
      | true => exact .inr (by simp only [Cell.inWord, Bool.and_eq_true] at hc; exact hc.2)
    rw [hsplit, maskFrom_run (List.cons_ne_nil c run) hsame hother, maskRun_keep hkeep,
      List.reverse_cons, List.append_assoc, List.singleton_append]

/-- Cells that are no code stay, however they are split into runs. -/
theorem maskFrom_gap {before between cells : List Cell}
    (hcode : ∀ cell ∈ between, cell.code = false) :
    maskFrom before (between ++ cells) = maskFrom (between.reverse ++ before) cells := by
  induction between generalizing before with
  | nil => rfl
  | cons cell between ih =>
    have hcell : cell.inWord = false := by
      rw [Cell.inWord, hcode cell (List.mem_cons_self ..), Bool.false_and]
    rw [List.cons_append, maskFrom_keep (.inl hcell),
      ih fun c hc => hcode c (List.mem_cons_of_mem _ hc), List.reverse_cons, List.append_assoc,
      List.singleton_append]

/-! ### One word -/

/-- The capital of an ASCII character is one as well. -/
theorem asciiUpper_lt {c : Char} (hc : c.toNat < 128) :
    (if 'a' ≤ c && c ≤ 'z' then Char.ofNat (c.toNat - 32) else c).toNat < 128 := by
  split
  · exact toNat_ofNat_lt (by omega)
  · exact hc

/-- An exchanged modifier is of ASCII and of the same length. -/
theorem exchanges_fit :
    ∀ pair ∈ exchanges, pair.2.toList.length = pair.1.toList.length ∧
      Ascii pair.2.toList := by
  decide

/-- What is looked up stands in the list. -/
theorem mem_exchanges_of_lookup {lower exchanged : String}
    (h : exchanges.lookup lower = some exchanged) : (lower, exchanged) ∈ exchanges := by
  obtain ⟨before, after, hsplit, -⟩ := List.lookup_eq_some_iff.mp h
  rw [hsplit]
  exact List.mem_append_right _ (List.mem_cons_self ..)

/-- The modifier that is put in the place of a word is as long as the word. -/
theorem exchange_fits {word : List Char} {exchanged : String}
    (h : exchanges.lookup (String.ofList (word.map Chars.asciiLower)) = some exchanged) :
    exchanged.toList.length = word.length ∧ Ascii exchanged.toList := by
  have hfit := exchanges_fit _ (mem_exchanges_of_lookup h)
  rwa [String.toList_ofList, List.length_map] at hfit

/-- A word keeps its length, in characters and so in bytes. -/
theorem maskWord_fits {word : List Char} (hword : Ascii word) (afterDot : Bool) :
    (maskWord afterDot word).length = word.length ∧ Ascii (maskWord afterDot word) := by
  unfold maskWord
  dsimp only
  split
  · split
    -- behind a dot, only the first letter of a keyword changes
    · cases word with
      | nil => exact ⟨rfl, hword⟩
      | cons c rest =>
        refine ⟨rfl, List.forall_mem_cons.mpr ⟨asciiUpper_lt (hword c (List.mem_cons_self ..)), ?_⟩⟩
        exact fun d hd => hword d (List.mem_cons_of_mem _ hd)
    · exact ⟨rfl, hword⟩
  · split
    · rename_i exchanged hlookup
      exact exchange_fits hlookup
    · split
      · refine ⟨List.length_map _, fun c hc => ?_⟩
        obtain ⟨d, -, rfl⟩ := List.mem_map.mp hc
        decide
      · split
        · rw [String.toList_ofList]
          exact ⟨List.length_map _, hword.map_lower⟩
        · exact ⟨rfl, hword⟩

/-- No modifier that is put in place holds a line feed. -/
theorem exchanges_unbroken : ∀ pair ∈ exchanges, '\n' ∉ pair.2.toList := by
  decide

/-- A masked word stays on its line. -/
theorem break_not_mem_maskWord {word : List Char} (hword : ∀ c ∈ word, isWordByte c = true)
    (afterDot : Bool) : '\n' ∉ maskWord afterDot word := by
  have hbreak : '\n' ∉ word := fun h => absurd (hword _ h) (by decide)
  unfold maskWord
  dsimp only
  split
  · split
    · cases word with
      | nil => exact hbreak
      | cons c rest =>
        intro h
        rcases List.mem_cons.mp h with h | h
        · -- the capital of a letter of a word is no line feed either
          have hc := hword c (List.mem_cons_self ..)
          have hascii := ascii_of_test asciiOnly_wordByte hc
          exact of_ascii (motive := fun c => isWordByte c = true →
            '\n' ≠ if 'a' ≤ c && c ≤ 'z' then Char.ofNat (c.toNat - 32) else c)
            (by decide) hascii hc h
        · exact hbreak (List.mem_cons_of_mem _ h)
    · exact hbreak
  · split
    · rename_i exchanged hlookup
      exact exchanges_unbroken _ (mem_exchanges_of_lookup hlookup)
    · split
      · simp
      · split
        · rw [String.toList_ofList]
          intro h
          obtain ⟨d, hd, hlower⟩ := List.mem_map.mp h
          have hascii := ascii_of_test asciiOnly_wordByte (hword d hd)
          exact of_ascii (motive := fun d => isWordByte d = true → Chars.asciiLower d ≠ '\n')
            (by decide) hascii (hword d hd) hlower
        · exact hbreak

section

variable {content bytes : List UInt8} {written done word rest after : List Char}

/-- A blanked word has a blank for each of its characters. -/
theorem encode_blankWord (hword : ∀ c ∈ word, isWordByte c = true) :
    (encode word).map blankByte = encode (word.map fun _ => ' ') := by
  induction word with
  | nil => rfl
  | cons c word ih =>
    have hc := hword c (List.mem_cons_self ..)
    have hblank : blankChar c = [' '] := by
      have hbreak : (c == '\n' || c == '\r') = false := by
        rw [Bool.or_eq_false_iff, beq_eq_false_iff_ne, beq_eq_false_iff_ne]
        constructor
        all_goals
          rintro rfl
          exact absurd hc (by decide)
      rw [blankChar, hbreak, size_of_toNat_lt (ascii_of_test asciiOnly_wordByte hc)]
      rfl
    rw [encode_cons, List.map_append, ih fun d hd => hword d (List.mem_cons_of_mem _ hd),
      ← encode_blankChar, hblank, ← encode_append]
    rfl

/-- A word is masked in place, where the text as written has it as well. -/
theorem editWord_eq {c : Char} {tail : List Char} (hcons : word = c :: tail)
    (hword : ∀ d ∈ word, isWordByte d = true) (hcontent : At content written (word ++ rest))
    (hbytes : At bytes done (word ++ after)) (hsame : byteLength written = byteLength done)
    {dot : Bool} (hdot : followsDot bytes (byteLength done) = .ok dot) :
    editWord content (byteLength done) (byteLength done + byteLength word) c bytes
      = .ok (encode done ++ encode (maskWord dot word) ++ encode after) := by
  have hascii : Ascii word := fun d hd => ascii_of_test asciiOnly_wordByte (hword d hd)
  have hcut : cut content (byteLength done) (byteLength done + byteLength word) = .ok word := by
    rw [← hsame]
    exact hcontent.cut_eq
  have hkeep : bytes = encode done ++ encode word ++ encode after := hbytes.split
  have hdone : byteLength done = (encode done).length := (length_encode done).symm
  have hstop : byteLength done + byteLength word = (encode done).length + (encode word).length := by
    rw [length_encode, length_encode]
  -- every new text of the same length goes over the word and leaves the rest
  have hcopy : ∀ new : List Char, new.length = word.length ∧ Ascii new →
      copyOver bytes (byteLength done) (byteLength done + byteLength word) (encode new)
        = .ok (encode done ++ encode new ++ encode after) := by
    rintro new ⟨hlength, hnew⟩
    apply copyOver_at hkeep hdone hstop
    rw [length_encode, length_encode, hnew.byteLength_eq, hascii.byteLength_eq, hlength]
  rw [editWord, hcut, Edit.ok_bind, hdot, Edit.ok_bind]
  unfold maskWord
  generalize hlower : String.ofList (word.map Chars.asciiLower) = lower
  -- the same distinctions as for the word of the cells, in the same order
  cases dot with
  -- behind a dot, a keyword is the name of a member and gets a capital
  | true =>
    dsimp only
    rw [if_pos rfl, if_pos rfl]
    cases keywords.contains lower with
    | true =>
      subst hcons
      have hc := hascii c (List.mem_cons_self ..)
      rw [if_pos rfl, if_pos rfl, hbytes, List.cons_append, put_char hc (asciiUpper_lt hc) hdone]
      simp only [encode_append, encode_cons, encode_nil, List.append_nil, List.append_assoc]
    | false => rw [if_neg Bool.false_ne_true, if_neg Bool.false_ne_true, hkeep]; rfl
  | false =>
    dsimp only
    rw [if_neg Bool.false_ne_true, if_neg Bool.false_ne_true]
    cases hlookup : exchanges.lookup lower with
    | some exchanged => exact hcopy _ (exchange_fits (hlower ▸ hlookup))
    | none =>
      dsimp only
      cases droppedModifiers.contains lower with
      | true =>
        rw [if_pos rfl, if_pos rfl, blank_at hkeep hdone hstop, encode_blankWord hword]
      | false =>
        rw [if_neg Bool.false_ne_true, if_neg Bool.false_ne_true]
        cases keywords.contains lower with
        | true =>
          rw [if_pos rfl, if_pos rfl, ← hlower, String.toList_ofList]
          exact hcopy _ ⟨List.length_map _, hascii.map_lower⟩
        | false => rw [if_neg Bool.false_ne_true, if_neg Bool.false_ne_true, hkeep]; rfl

end

section

variable {bytes : List UInt8}

/-- The bytes before are searched backwards for a dot, as the cells are. -/
theorem followsDot_eq {before : List Cell} {after : List Char}
    (hbytes : At bytes (front before) after) :
    followsDot bytes (byteLength (front before)) = .ok (afterDot before) := by
  have hsplit : bytes = [] ++ encode (front before) ++ encode after := by
    rw [hbytes, List.nil_append]
  have hslice : slice bytes 0 (byteLength (front before)) = .ok (encode (front before)) :=
    slice_at hsplit rfl (by rw [List.length_nil, Nat.zero_add, length_encode])
  rw [followsDot, hslice, Edit.ok_bind, Edit.pure_eq]
  congr 1
  clear hbytes hsplit hslice
  induction before with
  | nil => rfl
  | cons cell before ih =>
    -- the last byte of a character tells whether it is a blank or a dot
    obtain ⟨init, last, hlast, hinit, htest⟩ := encodeChar_last cell.char
    have hblank := htest _ asciiOnly_whitespace
    have hdot : (Char.ofUInt8 last == '.') = (cell.char == '.') :=
      htest _ (asciiOnly_beq (by decide))
    rw [afterDot, front_cons, encode_append, List.reverse_append, List.map_append,
      List.find?_append, encode_singleton, hlast, List.reverse_append, List.reverse_singleton,
      List.singleton_append, List.map_cons]
    cases hcell : Text.isAsciiWhitespace cell.char with
    | true =>
      -- a blank is one byte, and the search goes on before it
      rw [hinit (ascii_of_test asciiOnly_whitespace hcell),
        List.find?_cons_of_neg (by simp [hblank, hcell]), List.find?_cons_of_neg (by simp [hcell])]
      exact ih
    | false =>
      rw [List.find?_cons_of_pos (by simp [hblank, hcell]),
        List.find?_cons_of_pos (by simp [hcell])]
      exact hdot

end

/-! ### One turn -/

section

variable {content bytes : List UInt8} {before : List Cell} {cs : List Char} {c : Char} {stop : Nat}

/-- Whether a word goes on is told by the byte before. -/
theorem followsWord_eq (hbytes : At bytes (front before) cs) :
    followsWord bytes (byteLength (front before)) = .ok (joined before) := by
  cases before with
  | nil => rfl
  | cons cell before =>
    rw [front_cons] at hbytes ⊢
    obtain ⟨d, hread, hd⟩ := hbytes.read_last asciiOnly_wordByte
    have hpos := cell.char.utf8Size_pos
    rw [followsWord, if_pos (by rw [byteLength_concat]; omega), hread, Edit.map_ok, hd]
    rfl

/-- There is a byte before, or the text starts here. -/
theorem exists_followsWord {i : Nat} (hi : i < bytes.length) :
    ∃ b, followsWord bytes i = .ok b := by
  rw [followsWord]
  split
  · have hlt : i - 1 < bytes.length := by omega
    exact ⟨_, by rw [Buffer.read, List.getElem?_eq_getElem hlt]; rfl⟩
  · exact ⟨false, rfl⟩

/-- A turn within a character does nothing. -/
theorem wordTurn_high {j : Nat} {d : Char} (hread : read bytes j = .ok d) (hd : 128 ≤ d.toNat) :
    wordTurn content stop j bytes = .ok (.yield (j + 1, bytes)) := by
  obtain ⟨b, hb⟩ := exists_followsWord (lt_length_of_read hread)
  rw [wordTurn, hread, Edit.ok_bind, hb, Edit.ok_bind, asciiOnly_wordByte d hd]
  rfl

/-- Nor does one at a character that stays. -/
theorem wordTurn_keep (hbytes : At bytes (front before) (c :: cs))
    (h : isWordByte c = false ∨ joined before = true) :
    wordTurn content stop (byteLength (front before)) bytes
      = .ok (.yield (byteLength (front before) + 1, bytes)) := by
  rw [wordTurn, hbytes.read_eq, Edit.ok_bind, followsWord_eq hbytes, Edit.ok_bind,
    test_lead asciiOnly_wordByte]
  apply if_pos
  rcases h with h | h
  · rw [h]
    rfl
  · rw [h, Bool.or_true]

/-- A turn at the start of a word masks it, and goes on behind it. -/
theorem wordTurn_word (hbytes : At bytes (front before) (c :: cs)) (hc : isWordByte c = true)
    (hjoined : joined before = false) {j : Nat} {bytes' : List UInt8}
    (hend : wordEnd bytes stop (byteLength (front before)) = .ok j)
    (hedit : editWord content (byteLength (front before)) j c bytes = .ok bytes') :
    wordTurn content stop (byteLength (front before)) bytes = .ok (.yield (j, bytes')) := by
  have hascii := ascii_of_test asciiOnly_wordByte hc
  rw [wordTurn, hbytes.read_eq, Edit.ok_bind, followsWord_eq hbytes, Edit.ok_bind,
    lead_of_ascii hascii, ofUInt8_toUInt8 hascii, hc, hjoined, if_neg (by decide), hend,
    Edit.ok_bind, hedit]
  rfl

/-- A word ends before the first character that is no part of one, or where the span ends. -/
theorem wordEnd_eq {done word rest : List Char} (hbytes : At bytes done (word ++ rest))
    (hword : ∀ d ∈ word, isWordByte d = true) (hstop : byteLength (done ++ word) ≤ stop)
    (hrest : stop = byteLength (done ++ word)
      ∨ ∃ d rest', rest = d :: rest' ∧ isWordByte d = false) :
    wordEnd bytes stop (byteLength done) = .ok (byteLength (done ++ word)) := by
  unfold wordEnd
  induction word generalizing done with
  | nil =>
    rw [List.append_nil] at hstop hrest ⊢
    by_cases heq : stop = byteLength done
    · rw [seek_end (Nat.le_of_eq heq)]
    · obtain ⟨d, rest, rfl, hd⟩ := hrest.resolve_left heq
      apply seek_here (by omega)
      rw [List.nil_append] at hbytes
      rw [hbytes.read_eq, Edit.ok_bind, test_lead asciiOnly_wordByte, hd]
      rfl
  | cons d word ih =>
    have hd := hword d (List.mem_cons_self ..)
    rw [List.append_cons] at hstop hrest ⊢
    have hnext := ih hbytes.next (fun e he => hword e (List.mem_cons_of_mem _ he)) hstop hrest
    rw [byteLength_concat, size_of_toNat_lt (ascii_of_test asciiOnly_wordByte hd)] at hnext
    rw [byteLength_append, byteLength_concat] at hstop
    rw [seek_next, hnext]
    · have := d.utf8Size_pos
      omega
    · rw [hbytes.read_eq, Edit.ok_bind, test_lead asciiOnly_wordByte, hd]
      rfl

/-! ### One span -/

/-- No word starts behind a word. -/
theorem inWord_head {after : List Char} {tail : List Cell}
    (hafter : ∀ d ∈ after.head?, isWordByte d = false)
    (htail : ∀ cell ∈ tail.head?, cell.code = false) :
    ∀ cell ∈ (after.map plain ++ tail).head?, cell.inWord ≠ true := by
  intro cell hcell
  cases after with
  | nil =>
    rw [Cell.inWord, htail cell hcell]
    exact Bool.false_ne_true
  | cons d after =>
    obtain rfl : plain d = cell := Option.some.inj hcell
    have hd := hafter d rfl
    show isWordByte d ≠ true
    rw [hd]
    exact Bool.false_ne_true

/-- A turn at a word masks it, up to the end of the span at most. -/
theorem wordTurn_run {word after rest written : List Char} {tail : List Char}
    (hword : ∀ d ∈ c :: word, isWordByte d = true)
    (hafter : ∀ d ∈ after.head?, isWordByte d = false) (hjoined : joined before = false)
    (hbytes : At bytes (front before) (c :: word ++ (after ++ tail)))
    (hcontent : At content written (c :: word ++ (after ++ rest)))
    (hsame : byteLength written = byteLength (front before))
    (hstop : stop = byteLength (front before) + (byteLength (c :: word) + byteLength after)) :
    wordTurn content stop (byteLength (front before)) bytes
      = .ok (.yield (byteLength (front before ++ c :: word),
          encode (front before ++ maskWord (afterDot before) (c :: word))
            ++ encode (after ++ tail))) := by
  have hend : wordEnd bytes stop (byteLength (front before))
      = .ok (byteLength (front before ++ c :: word)) := by
    apply wordEnd_eq hbytes hword
    · rw [hstop, byteLength_append]
      omega
    -- the word ends with the span, or before another character of it
    · cases after with
      | nil => exact .inl (by rw [hstop, byteLength_append, byteLength_nil, Nat.add_zero])
      | cons d after => exact .inr ⟨d, after ++ tail, rfl, hafter d rfl⟩
  have hedit := editWord_eq rfl hword hcontent hbytes hsame (followsDot_eq hbytes)
  rw [← byteLength_append] at hedit
  rw [wordTurn_word hbytes (hword c (List.mem_cons_self ..)) hjoined hend hedit,
    encode_append (front before)]

/-- A masked word takes as many bytes. -/
theorem byteLength_maskWord {word : List Char} (hword : ∀ d ∈ word, isWordByte d = true)
    (dot : Bool) : byteLength (maskWord dot word) = byteLength word := by
  have hascii : Ascii word := fun d hd => ascii_of_test asciiOnly_wordByte (hword d hd)
  obtain ⟨hlength, hmasked⟩ := maskWord_fits hascii dot
  rw [hmasked.byteLength_eq, hlength, hascii.byteLength_eq]

/-- The cells of a word are masked as one run. -/
theorem maskFrom_word {word after : List Char} {tail : List Cell}
    (hword : ∀ d ∈ c :: word, isWordByte d = true)
    (hafter : ∀ d ∈ after.head?, isWordByte d = false) (hjoined : joined before = false)
    (htail : ∀ cell ∈ tail.head?, cell.code = false) :
    maskFrom before ((c :: word ++ after).map plain ++ tail)
      = maskFrom (((maskWord (afterDot before) (c :: word)).map plain).reverse ++ before)
          (after.map plain ++ tail) := by
  have hcells : ∀ cell ∈ (c :: word).map plain, cell.inWord = true := by
    intro cell hcell
    obtain ⟨d, hd, rfl⟩ := List.mem_map.mp hcell
    exact hword d hd
  have hc : (plain c).inWord = true := hword c (List.mem_cons_self ..)
  rw [List.map_append, List.append_assoc,
    maskFrom_run (by simp) hcells (inWord_head hafter htail), List.map_cons,
    maskRun_word hc hjoined, ← List.map_cons, cellChars_map_plain]

/--
The words of a span of code are masked as those of its cells: the buffer holds the masked cells
`before'` up to the end of the span.
-/
theorem maskSpan_code {run rest written : List Char} {tail : List Cell}
    (hbytes : At bytes (front before) (run ++ cellChars tail))
    (hcontent : At content written (run ++ rest))
    (hsame : byteLength written = byteLength (front before))
    (htail : ∀ cell ∈ tail.head?, cell.code = false)
    (hstop : stop = byteLength (front before) + byteLength run) :
    ∃ before', maskFrom before (run.map plain ++ tail) = maskFrom before' tail ∧
      byteLength (front before') = stop ∧
      loop stop (wordTurn content stop) (byteLength (front before)) bytes
        = .ok (stop, encode (front before') ++ encode (cellChars tail)) := by
  -- on the length, since a turn may take more than one character
  induction hn : run.length using Nat.strong_induction_on generalizing run before written bytes with
  | _ n ih =>
  subst hn
  cases run with
  | nil =>
    rw [byteLength_nil, Nat.add_zero] at hstop
    refine ⟨before, rfl, hstop.symm, ?_⟩
    rw [loop_end (Nat.le_of_eq hstop), hstop]
    exact congrArg _ (congrArg _ hbytes)
  | cons c run =>
    by_cases hkeep : isWordByte c = false ∨ joined before = true
    · -- the character stays, and the turn goes on behind it
      have hfront : front (plain c :: before) = front before ++ [c] := front_cons ..
      have hcell : (plain c).inWord = false ∨ joined before = true := hkeep
      obtain ⟨before', hcells, hsize, hloop⟩ :=
        ih run.length (Nat.lt_succ_self _) (hfront ▸ hbytes.next) hcontent.next
          (by rw [hfront, byteLength_concat, byteLength_concat, hsame])
          (by rw [hstop, hfront, byteLength_concat, byteLength_cons, Nat.add_assoc]) rfl
      refine ⟨before', ?_, hsize, ?_⟩
      · rw [List.map_cons, List.cons_append, maskFrom_keep hcell, hcells]
      · rw [loop_char hbytes _ (wordTurn_keep hbytes hkeep) fun _ _ => wordTurn_high, ← hloop,
          hfront]
        rw [hstop, byteLength_cons]
        omega
    · -- a word starts here: it is masked up to its end, which lies in the span
      simp only [not_or, Bool.not_eq_false, Bool.not_eq_true] at hkeep
      obtain ⟨hc, hjoined⟩ := hkeep
      obtain ⟨word, after, rfl, hword, hafter⟩ := exists_run isWordByte run
      have hwhole : ∀ d ∈ c :: word, isWordByte d = true := List.forall_mem_cons.mpr ⟨hc, hword⟩
      rw [← List.cons_append] at hbytes hcontent hstop ⊢
      rw [List.append_assoc] at hbytes hcontent
      rw [byteLength_append] at hstop
      have hturn := wordTurn_run hwhole hafter hjoined hbytes hcontent hsame hstop
      have hcells := maskFrom_word hwhole hafter hjoined htail
      have hsize := byteLength_maskWord hwhole (afterDot before)
      -- from here on only the length of the masked word matters
      generalize maskWord (afterDot before) (c :: word) = masked at hturn hcells hsize
      have hfront : front ((masked.map plain).reverse ++ before) = front before ++ masked := by
        rw [front_append, cellChars_map_plain]
      have hnext : At (encode (front before ++ masked) ++ encode (after ++ cellChars tail))
          (front ((masked.map plain).reverse ++ before)) (after ++ cellChars tail) := by
        rw [hfront]
        rfl
      obtain ⟨before', hafterCells, hbefore', hloop⟩ :=
        ih after.length (by rw [List.length_cons, List.length_append]; omega) hnext hcontent.append
          (by rw [hfront, byteLength_append, byteLength_append, hsame, hsize])
          (by rw [hfront, byteLength_append, hsize, hstop, Nat.add_assoc]) rfl
      refine ⟨before', hcells.trans hafterCells, hbefore', ?_⟩
      have hpos := c.utf8Size_pos
      rw [loop_yield _ hturn _, ← hloop, hfront, byteLength_append, byteLength_append, hsize]
      · rw [hstop, byteLength_cons]
        omega
      · rw [byteLength_append, byteLength_cons]
        omega

/-- No word of the lists starts with a bracket. -/
theorem brackets_unlisted :
    (∀ word ∈ keywords, word.toList.head? ≠ some '[') ∧
      (∀ word ∈ droppedModifiers, word.toList.head? ≠ some '[') ∧
      ∀ pair ∈ exchanges, pair.1.toList.head? ≠ some '[' := by
  decide

/-- What the text as written has in place of a stand-in is no word, so the stand-in stays. -/
theorem editWord_bracket {i j : Nat} {word : List Char} {dot : Bool}
    (hcut : cut content i j = .ok ('[' :: word)) (hdot : followsDot bytes i = .ok dot) :
    editWord content i j c bytes = .ok bytes := by
  obtain ⟨hkeywords, hdropped, hexchanges⟩ := brackets_unlisted
  rw [editWord, hcut, Edit.ok_bind, hdot, Edit.ok_bind]
  generalize hlower : String.ofList (('[' :: word).map Chars.asciiLower) = lower
  have hhead : lower.toList.head? = some '[' := by
    rw [← hlower, String.toList_ofList]
    rfl
  have hnot : ∀ words : List String, (∀ w ∈ words, w.toList.head? ≠ some '[') →
      words.contains lower = false := by
    intro words hwords
    rw [← Bool.not_eq_true, List.contains_iff_mem]
    exact fun hmem => hwords lower hmem hhead
  have hlookup : exchanges.lookup lower = none := by
    rw [List.lookup_eq_none_iff]
    intro pair hpair
    rw [bne_iff_ne]
    rintro rfl
    exact hexchanges pair hpair hhead
  cases dot with
  | true => simp only [hnot _ hkeywords]; rfl
  | false => simp only [hlookup, hnot _ hkeywords, hnot _ hdropped]; rfl

/-- Nothing is masked while a word goes on. -/
theorem loop_joined {word : List Char} (hword : ∀ d ∈ word, isWordByte d = true)
    (hjoined : joined before = true) (hbytes : At bytes (front before) (word ++ cs))
    (hstop : byteLength (front before ++ word) ≤ stop) :
    loop stop (wordTurn content stop) (byteLength (front before)) bytes
      = loop stop (wordTurn content stop) (byteLength (front before ++ word)) bytes := by
  induction word generalizing before with
  | nil => rw [List.append_nil]
  | cons d word ih =>
    -- each character of the word makes the next one go on
    have hd : joined (plain d :: before) = true := hword d (List.mem_cons_self ..)
    have hfront : front (plain d :: before) = front before ++ [d] := front_cons ..
    rw [List.append_cons, ← hfront] at hstop ⊢
    rw [← ih (fun e he => hword e (List.mem_cons_of_mem _ he)) hd (hfront ▸ hbytes.next) hstop,
      loop_char hbytes _ (wordTurn_keep hbytes (.inr hjoined)) fun _ _ => wordTurn_high, hfront]
    rw [byteLength_append, hfront, byteLength_concat] at hstop
    omega

/-- A stand-in is left as it is. -/
theorem maskSpan_standIn {part rest written : List Char}
    (hfour : byteLength ('[' :: part) = 4)
    (hbytes : At bytes (front before) ("null".toList ++ cs))
    (hcontent : At content written ('[' :: part ++ rest))
    (hsame : byteLength written = byteLength (front before)) :
    maskSpan content bytes (byteLength (front before), byteLength (front before) + 4)
      = .ok bytes := by
  have hword : ∀ x ∈ "null".toList, isWordByte x = true := List.all_eq_true.mp (by decide)
  have hstop : byteLength (front before ++ "null".toList) = byteLength (front before) + 4 := by
    rw [byteLength_append]
    rfl
  rw [maskSpan]
  dsimp only
  suffices hloop : loop (byteLength (front before) + 4)
      (wordTurn content (byteLength (front before) + 4)) (byteLength (front before)) bytes
        = .ok (byteLength (front before) + 4, bytes) by
    rw [hloop]
    rfl
  rw [← hstop]
  -- no turn starts a word, or one does and the text as written has a bracket there
  cases hjoined : joined before with
  | true => rw [loop_joined hword hjoined hbytes (Nat.le_refl _), loop_end (Nat.le_refl _)]
  | false =>
    have hend := wordEnd_eq hbytes hword (Nat.le_refl _) (.inl rfl)
    have hcut : cut content (byteLength (front before)) (byteLength (front before ++ "null".toList))
        = .ok ('[' :: part) := by
      rw [hstop, ← hsame, ← hfour]
      exact hcontent.cut_eq
    have hedit : editWord content (byteLength (front before)) _ 'n' bytes = .ok bytes :=
      editWord_bracket hcut (followsDot_eq hbytes)
    have hturn := wordTurn_word hbytes (hword 'n' (by decide)) hjoined hend hedit
    rw [loop_yield _ hturn _, loop_end (Nat.le_refl _)]
    · rw [hstop]
      omega
    · rw [hstop]
      omega

/-- The words of all spans are masked as those of the cells. -/
theorem foldlM_maskSpan {p : Nat} {cs : List Char} {cells : List Cell} {spans : List Span}
    (h : Covers p cs cells spans) {written : List Char}
    (hbytes : At bytes (front before) (cellChars cells)) (hcontent : At content written cs)
    (hbefore : byteLength (front before) = p) (hwritten : byteLength written = p) :
    spans.foldlM (maskSpan content) bytes = .ok (encode (front (maskFrom before cells))) := by
  induction h generalizing bytes before written with
  | nil p =>
    rw [hbytes, cellChars_nil, encode_nil, List.append_nil]
    rfl
  | @gap p part cs between cells spans hcode hsize h ih =>
    -- cells between the spans stay as they are
    rw [cellChars_append] at hbytes
    rw [maskFrom_gap hcode]
    have hfront := front_append between before
    apply ih (hfront ▸ hbytes.append) hcontent.append
    · rw [hfront, byteLength_append, hsize, hbefore]
    · rw [byteLength_append, hwritten]
  | @code p run cs cells spans hrun hnext h ih =>
    -- a span of code, masked word by word
    rw [cellChars_append, cellChars_map_plain] at hbytes
    obtain ⟨before', hcells, hsize, hloop⟩ :=
      maskSpan_code hbytes hcontent (hwritten.trans hbefore.symm) hnext rfl
    have hspan : maskSpan content bytes (p, p + byteLength run)
        = .ok (encode (front before') ++ encode (cellChars cells)) := by
      rw [maskSpan, ← hbefore]
      dsimp only
      rw [hloop]
      rfl
    rw [List.foldlM_cons, hspan, Edit.ok_bind, hcells]
    apply ih rfl hcontent.append
    · rw [hsize, hbefore]
    · rw [byteLength_append, hwritten]
  | standIn hfour h ih =>
    -- a stand-in, of which the cells keep nothing as code
    rw [cellChars_append, cellChars_map_other] at hbytes
    have hspan := maskSpan_standIn hfour hbytes hcontent (hwritten.trans hbefore.symm)
    have hfront : front (("null".toList.map other).reverse ++ before)
        = front before ++ "null".toList := by
      rw [front_append, cellChars_map_other]
    rw [hbefore] at hspan
    rw [List.foldlM_cons, hspan, Edit.ok_bind, maskFrom_gap fun _ => code_of_mem_map_other]
    apply ih (hfront ▸ hbytes.append) hcontent.append
    · rw [hfront, byteLength_append, hbefore]
      rfl
    · rw [byteLength_append, hwritten, hfour]

end

end SourceAtlas.Extract.Apex.InPlace
