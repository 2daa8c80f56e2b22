import SourceAtlas.Proofs.Extract.Apex.Layout

/-!
# Line breaks under masking

Masking blanks whole ranges, but a blank takes the place of everything except a line break. One
step writes more than blanks: the stand-in of a query is written over the bracket and the three
bytes behind it, whatever they are. `mask_lineFeeds` says that this is all that is lost.

Where queries start is told by reading the text one character at a time, in one of a few modes
(`Mode.next`), apart from what becomes of the characters.

* **The cells.** Each character of a mode becomes cells with the same line breaks, and the mode
  goes on to the next (`Mode.steps`), except where a query starts (`cells_query`). So
  `lineFeeds_cells`, by induction on the text.
* **The other steps.** Words are exchanged on their line, and everything else blanks
  (`lineFeeds_reworded`, `lineFeeds_blanked`, `lineFeeds_maskAccessors`).
-/

namespace SourceAtlas.Extract.Apex

open Buffer Utf8 InPlace
open Chars (byteLength byteLength_nil byteLength_cons byteLength_append)

/-! ## The places of line feeds -/

/-- The places of the line feeds among some bytes; `offset` bytes come before. -/
def lineFeedsFrom (offset : Nat) : List UInt8 → List Nat
  | [] => []
  | b :: bs =>
    if b == 10 then offset :: lineFeedsFrom (offset + 1) bs else lineFeedsFrom (offset + 1) bs

/-- The places of the line feeds of a text. -/
def lineFeeds (text : String) : List Nat :=
  lineFeedsFrom 0 (Text.bytes text)

section

variable {offset : Nat}

/-- The places among bytes one after another. -/
theorem lineFeedsFrom_append (bs ds : List UInt8) :
    lineFeedsFrom offset (bs ++ ds)
      = lineFeedsFrom offset bs ++ lineFeedsFrom (offset + bs.length) ds := by
  induction bs generalizing offset with
  | nil => rfl
  | cons b bs ih =>
    have hplace : offset + 1 + bs.length = offset + (b :: bs).length := by
      rw [List.length_cons]
      omega
    rw [List.cons_append, lineFeedsFrom, lineFeedsFrom, ih, hplace]
    split <;> rfl

/-- No byte of a character beyond ASCII is a line feed. -/
theorem lineFeedsFrom_high {bs : List UInt8} (h : ∀ b ∈ bs, 128 ≤ b.toNat) :
    lineFeedsFrom offset bs = [] := by
  induction bs generalizing offset with
  | nil => rfl
  | cons b bs ih =>
    have hb : (b == 10) = false := by
      rw [beq_eq_false_iff_ne]
      rintro rfl
      exact absurd (h 10 (List.mem_cons_self ..)) (by decide)
    rw [lineFeedsFrom, hb]
    exact ih fun d hd => h d (List.mem_cons_of_mem _ hd)

/-- Only the character of a line feed has its byte. -/
theorem lineFeedsFrom_encode_cons (c : Char) (cs : List Char) :
    lineFeedsFrom offset (encode (c :: cs))
      = (if c = '\n' then [offset] else []) ++ lineFeedsFrom (offset + c.utf8Size) (encode cs) := by
  have hchar :
      lineFeedsFrom offset (String.utf8EncodeChar c) = if c = '\n' then [offset] else [] := by
    by_cases hc : c.toNat < 128
    · have hbyte : (c.toUInt8 == 10) = decide (c = '\n') := by
        rw [Bool.eq_iff_iff, beq_iff_eq, decide_eq_true_iff]
        exact ⟨fun h => toUInt8_inj hc (by decide) (h.trans rfl), fun h => h ▸ rfl⟩
      rw [encodeChar_of_ascii hc, lineFeedsFrom, hbyte, lineFeedsFrom]
      simp only [decide_eq_true_eq]
    · have hne : c ≠ '\n' := by
        rintro rfl
        exact hc (by decide)
      rw [if_neg hne]
      exact lineFeedsFrom_high fun b hb => high_of_mem_encodeChar (Nat.not_lt.mp hc) hb
  rw [encode_cons, lineFeedsFrom_append, hchar, String.length_utf8EncodeChar]

/-- The places are those of the bytes. -/
theorem le_of_mem_lineFeedsFrom {bs : List UInt8} {p : Nat} (h : p ∈ lineFeedsFrom offset bs) :
    offset ≤ p ∧ p < offset + bs.length := by
  induction bs generalizing offset with
  | nil => cases h
  | cons b bs ih =>
    rw [List.length_cons]
    rw [lineFeedsFrom] at h
    split at h
    · rcases List.mem_cons.mp h with rfl | h
      · omega
      · have := ih h
        omega
    · have := ih h
      omega

/-- Blanks take the place of everything but line breaks. -/
theorem lineFeedsFrom_map_blankByte (bs : List UInt8) :
    lineFeedsFrom offset (bs.map blankByte) = lineFeedsFrom offset bs := by
  induction bs generalizing offset with
  | nil => rfl
  | cons b bs ih =>
    have hb : (blankByte b == 10) = (b == 10) := by
      by_cases hbreak : b = 10
      · subst hbreak
        decide
      · have hblank : blankByte b ≠ 10 := by
          rw [blankByte]
          split
          · exact hbreak
          · decide
        rw [beq_eq_false_iff_ne.mpr hbreak, beq_eq_false_iff_ne.mpr hblank]
    rw [List.map_cons, lineFeedsFrom, hb, ih, lineFeedsFrom]

/-- The line of a byte counts the line feeds before it. -/
theorem length_filter_lineFeedsFrom (offset : Nat) (bs : List UInt8) (p : Nat) :
    ((lineFeedsFrom offset bs).filter (· < offset + p)).length
      = ((bs.take p).filter (· == 10)).length := by
  induction bs generalizing offset p with
  | nil => rw [List.take_nil]; rfl
  | cons b bs ih =>
    cases p with
    | zero =>
      rw [List.take_zero, List.filter_nil, List.length_nil, List.length_eq_zero_iff,
        List.filter_eq_nil_iff]
      -- no place comes before the first byte
      intro q hq
      have := le_of_mem_lineFeedsFrom hq
      rw [decide_eq_true_iff]
      omega
    | succ p =>
      have hrest := ih (offset + 1) p
      rw [show offset + 1 + p = offset + (p + 1) by omega] at hrest
      rw [lineFeedsFrom, List.take_succ_cons, List.filter_cons]
      split
      · rw [List.filter_cons, if_pos (by rw [decide_eq_true_iff]; omega), List.length_cons,
          List.length_cons, hrest]
      · exact hrest

end

/-- Lines are counted by line feeds. -/
theorem lineAt_eq (text : String) (p : Nat) :
    (SourceText.ofString text).lineAt p = ((lineFeeds text).filter (· < p)).length + 1 := by
  have hbytes : (SourceText.ofString text).bytes.toList = Text.bytes text := toList_toUTF8 text
  have hcount := length_filter_lineFeedsFrom 0 (Text.bytes text) p
  rw [Nat.zero_add] at hcount
  rw [SourceText.lineAt, hbytes, lineFeeds, hcount]

/-! ## Modes of reading -/

/-- What a text is read as. A mark of two characters is read one after the other, and a backslash
before what it escapes. -/
inductive Mode where
  | code
  | lineComment
  | opening
  | blockComment
  | closing
  | literal
  | escaped
  | query (depth : Nat)
  | queryLiteral (depth : Nat)
  | queryEscaped (depth : Nat)
  deriving DecidableEq

/-- How the text is read behind a character, given what follows it. -/
def Mode.next (mode : Mode) (c : Char) (rest : List Char) : Mode :=
  match mode with
  | .code =>
    if c == '/' && rest.head? == some '/' then .lineComment
    else if c == '/' && rest.head? == some '*' then .opening
    else if c == '\'' then .literal
    else if c == '[' && startsQuery rest then .query 1
    else .code
  | .lineComment => if c == '\n' then .code else .lineComment
  | .opening => .blockComment
  | .blockComment => if c == '*' && rest.head? == some '/' then .closing else .blockComment
  | .closing => .code
  | .literal =>
    if c == '\'' || c == '\n' then .code else if c == '\\' then .escaped else .literal
  | .escaped => .literal
  | .query depth =>
    if c == '[' then .query (depth + 1)
    else if c == ']' then if depth ≤ 1 then .code else .query (depth - 1)
    else if c == '\'' then .queryLiteral depth
    else .query depth
  | .queryLiteral depth =>
    if c == '\'' then .query depth
    else if c == '\\' then .queryEscaped depth
    else .queryLiteral depth
  | .queryEscaped depth => .queryLiteral depth

/-- Whether a query starts with a character. -/
def Mode.opensQuery (mode : Mode) (c : Char) (rest : List Char) : Bool :=
  mode == .code && c == '[' && startsQuery rest

/-- The places of the brackets that queries start with; `offset` bytes come before. -/
def queryStarts (mode : Mode) (offset : Nat) : List Char → List Nat
  | [] => []
  | c :: rest =>
    let later := queryStarts (mode.next c rest) (offset + c.utf8Size) rest
    if mode.opensQuery c rest then offset :: later else later

/-- Queries start at the place that is read or behind it. -/
theorem le_of_mem_queryStarts {mode : Mode} {offset q : Nat} {cs : List Char}
    (h : q ∈ queryStarts mode offset cs) : offset ≤ q := by
  induction cs generalizing mode offset with
  | nil => cases h
  | cons c rest ih =>
    rw [queryStarts] at h
    split at h
    · rcases List.mem_cons.mp h with rfl | h
      · exact Nat.le_refl _
      · have := ih h
        omega
    · have := ih h
      omega

/-! ## What becomes of the characters of a mode -/

/-- The cells of a text that is read in a mode. -/
def Mode.cells : Mode → List Char → List Cell
  | .code, cs => codeCells cs
  | .lineComment, cs => lineCommentCells cs
  | .opening, cs => (cs.take 1).map other ++ blockCommentCells cs.tail
  | .blockComment, cs => blockCommentCells cs
  | .closing, cs => (cs.take 1).map other ++ codeCells cs.tail
  | .literal, cs => stringCells cs
  | .escaped, cs => (cs.take 1).map other ++ stringCells cs.tail
  | .query depth, cs => queryCells [] depth cs
  | .queryLiteral depth, cs => queryStringCells [] depth cs
  | .queryEscaped depth, cs => blanked (cs.take 1) ++ queryStringCells [] depth cs.tail

/-- Cells that take the bytes of a character and break the line where it does. -/
def Stands (c : Char) (cells : List Cell) : Prop :=
  byteLength (cellChars cells) = c.utf8Size ∧
    ∀ offset, lineFeedsFrom offset (encode (cellChars cells))
      = if c = '\n' then [offset] else []

/-- A character stands for itself. -/
theorem stands_self (c : Char) (code : Bool) : Stands c [⟨c, code⟩] := by
  refine ⟨rfl, fun offset => ?_⟩
  show lineFeedsFrom offset (encode [c]) = _
  rw [lineFeedsFrom_encode_cons]
  exact List.append_nil _

/-- Blanks stand for a cell. -/
theorem stands_blank (cell : Cell) : Stands cell.char cell.blank := by
  refine ⟨byteLength_blank cell, fun offset => ?_⟩
  rw [encode_blank, lineFeedsFrom_map_blankByte, ← encode_singleton, lineFeedsFrom_encode_cons]
  exact List.append_nil _

/-- Blanks stand for a character of a query. -/
theorem stands_blanked (c : Char) : Stands c (blanked [c]) := by
  rw [blanked_singleton]
  exact stands_blank (other c)

/-- A character may be exchanged for another within the line. -/
theorem stands_exchanged {c d : Char} (code : Bool) (hsize : d.utf8Size = c.utf8Size)
    (hc : c ≠ '\n') (hd : d ≠ '\n') : Stands c [⟨d, code⟩] := by
  refine ⟨hsize, fun offset => ?_⟩
  show lineFeedsFrom offset (encode [d]) = _
  rw [lineFeedsFrom_encode_cons, if_neg hd, if_neg hc]
  rfl

/-- The first character of a text and the rest. -/
theorem Stands.lineFeeds_append {c : Char} {cells : List Cell} (h : Stands c cells) (offset : Nat)
    (rest : List Cell) :
    lineFeedsFrom offset (encode (cellChars (cells ++ rest)))
      = (if c = '\n' then [offset] else [])
        ++ lineFeedsFrom (offset + c.utf8Size) (encode (cellChars rest)) := by
  rw [cellChars_append, encode_append, lineFeedsFrom_append, length_encode, h.1, h.2]

/-- A character that is read in a mode: the cells it becomes, and the mode behind it. -/
def Mode.Steps (mode : Mode) (c : Char) (rest : List Char) : Prop :=
  ∃ cells, mode.cells (c :: rest) = cells ++ (mode.next c rest).cells rest ∧ Stands c cells

section

variable {c : Char} {rest : List Char} {depth : Nat}

/-- Code: a comment or a string may start here, and its first mark is no code. -/
theorem steps_code (h : Mode.code.opensQuery c rest = false) : Mode.code.Steps c rest := by
  by_cases hline : c = '/' ∧ rest.head? = some '/'
  · obtain ⟨rfl, hhead⟩ := hline
    obtain ⟨rest, rfl⟩ := List.head?_eq_some_iff.mp hhead
    exact ⟨[other '/'], rfl, stands_self ..⟩
  by_cases hblock : c = '/' ∧ rest.head? = some '*'
  · obtain ⟨rfl, hhead⟩ := hblock
    obtain ⟨rest, rfl⟩ := List.head?_eq_some_iff.mp hhead
    exact ⟨[other '/'], rfl, stands_self ..⟩
  by_cases hquote : c = '\''
  · subst hquote
    exact ⟨[other '"'], rfl, stands_exchanged _ rfl (by decide) (by decide)⟩
  -- nothing starts with the character, so it is code
  · have hquery : (c == '[' && startsQuery rest) = false := h
    have hnext : Mode.code.next c rest = .code := by
      simp [Mode.next, hline, hblock, hquote, hquery]
    refine ⟨[plain c], ?_, stands_self ..⟩
    rw [hnext]
    show codeCells (c :: rest) = _
    rw [codeCells, hquery]
    · rfl
    · rintro rest' rfl rfl
      exact hline ⟨rfl, rfl⟩
    · rintro rest' rfl rfl
      exact hblock ⟨rfl, rfl⟩
    · exact hquote

/-- A comment up to the end of the line, where the line feed is code again. -/
theorem steps_lineComment : Mode.lineComment.Steps c rest := by
  by_cases hbreak : c = '\n'
  · subst hbreak
    exact ⟨[plain '\n'], rfl, stands_self ..⟩
  · have hnext : Mode.lineComment.next c rest = .lineComment := by simp [Mode.next, hbreak]
    refine ⟨[other c], ?_, stands_self ..⟩
    rw [hnext]
    show lineCommentCells (c :: rest) = _
    rw [lineCommentCells]
    · rfl
    · exact hbreak

/-- A comment between marks. -/
theorem steps_blockComment : Mode.blockComment.Steps c rest := by
  by_cases hclose : c = '*' ∧ rest.head? = some '/'
  · obtain ⟨rfl, hhead⟩ := hclose
    obtain ⟨rest, rfl⟩ := List.head?_eq_some_iff.mp hhead
    exact ⟨[other '*'], rfl, stands_self ..⟩
  · have hnext : Mode.blockComment.next c rest = .blockComment := by simp [Mode.next, hclose]
    refine ⟨[other c], ?_, stands_self ..⟩
    rw [hnext]
    show blockCommentCells (c :: rest) = _
    rw [blockCommentCells]
    · rfl
    · rintro rest' rfl rfl
      exact hclose ⟨rfl, rfl⟩

/-- A string: its quotes are exchanged, and double quotes within it as well. -/
theorem steps_literal : Mode.literal.Steps c rest := by
  by_cases hspecial : c ∈ ['\'', '\n', '\\', '"']
  · simp only [List.mem_cons, List.not_mem_nil, or_false] at hspecial
    rcases hspecial with rfl | rfl | rfl | rfl
    · exact ⟨[other '"'], rfl, stands_exchanged _ rfl (by decide) (by decide)⟩
    · exact ⟨[other '\n'], rfl, stands_self ..⟩
    · refine ⟨[other '\\'], ?_, stands_self ..⟩
      cases rest with
      | nil => rfl
      | cons d rest => rfl
    · exact ⟨[other '\''], rfl, stands_exchanged _ rfl (by decide) (by decide)⟩
  · simp only [List.mem_cons, List.not_mem_nil, or_false, not_or] at hspecial
    have hnext : Mode.literal.next c rest = .literal := by simp [Mode.next, hspecial]
    refine ⟨[other c], ?_, stands_self ..⟩
    rw [hnext]
    show stringCells (c :: rest) = _
    rw [stringCells]
    · rfl
    all_goals simp_all

/-- A query, which is blanked, with its brackets counted. -/
theorem steps_query : (Mode.query depth).Steps c rest := by
  refine ⟨blanked [c], ?_, stands_blanked c⟩
  rw [blanked_singleton]
  by_cases hspecial : c ∈ ['[', ']', '\'']
  · simp only [List.mem_cons, List.not_mem_nil, or_false] at hspecial
    rcases hspecial with rfl | rfl | rfl
    · rfl
    · show queryCells [] depth (']' :: rest) = _
      rw [queryCells]
      simp only [Mode.next]
      split <;> rfl
    · rfl
  · simp only [List.mem_cons, List.not_mem_nil, or_false, not_or] at hspecial
    have hnext : (Mode.query depth).next c rest = .query depth := by simp [Mode.next, hspecial]
    rw [hnext]
    show queryCells [] depth (c :: rest) = _
    rw [queryCells]
    · rfl
    all_goals simp_all

/-- A string within a query is blanked with it. -/
theorem steps_queryLiteral : (Mode.queryLiteral depth).Steps c rest := by
  refine ⟨blanked [c], ?_, stands_blanked c⟩
  by_cases hspecial : c ∈ ['\'', '\\']
  · simp only [List.mem_cons, List.not_mem_nil, or_false] at hspecial
    rcases hspecial with rfl | rfl
    · rfl
    · cases rest with
      | nil => rfl
      | cons d rest =>
        show standIn [] '\\' ++ standIn [] d ++ queryStringCells [] depth rest
          = blanked ['\\'] ++ (blanked [d] ++ queryStringCells [] depth rest)
        rw [blanked_singleton, blanked_singleton, List.append_assoc]
  · simp only [List.mem_cons, List.not_mem_nil, or_false, not_or] at hspecial
    have hnext : (Mode.queryLiteral depth).next c rest = .queryLiteral depth := by
      simp [Mode.next, hspecial]
    rw [hnext, blanked_singleton]
    show queryStringCells [] depth (c :: rest) = _
    rw [queryStringCells]
    · rfl
    all_goals simp_all

/-- **A character of a mode keeps its bytes and breaks its line**, unless a query starts with it. -/
theorem Mode.steps (mode : Mode) (h : mode.opensQuery c rest = false) : mode.Steps c rest := by
  cases mode with
  | code => exact steps_code h
  | lineComment => exact steps_lineComment
  | opening => exact ⟨[other c], rfl, stands_self ..⟩
  | blockComment => exact steps_blockComment
  | closing => exact ⟨[other c], rfl, stands_self ..⟩
  | literal => exact steps_literal
  | escaped => exact ⟨[other c], rfl, stands_self ..⟩
  | query depth => exact steps_query
  | queryLiteral depth => exact steps_queryLiteral
  | queryEscaped depth => exact ⟨blanked [c], rfl, stands_blanked c⟩

end

/-! ## Queries -/

/-- A query goes on in its mode over characters that stand for themselves. -/
theorem next_query {c : Char} (h : InQuery c) (depth : Nat) (rest : List Char) :
    (Mode.query depth).next c rest = .query depth := by
  have hne := h.2
  simp only [List.mem_cons, List.not_mem_nil, or_false, not_or] at hne
  simp [Mode.next, hne]

/-- Where a query starts, the stand-in takes four characters, each of one byte. -/
theorem cells_query {rest : List Char} (h : startsQuery rest = true) :
    ∃ head rest', rest = head ++ rest' ∧ byteLength ('[' :: head) = 4 ∧
      codeCells ('[' :: rest) = "null".toList.map other ++ (Mode.query 1).cells rest' ∧
      ∀ offset, queryStarts .code offset ('[' :: rest)
        = offset :: queryStarts (.query 1) (offset + 4) rest' := by
  obtain ⟨hlength, hhead⟩ := startsQuery_head h
  -- a keyword follows the bracket, after blanks perhaps, so three characters are there
  obtain ⟨a, b, c, rest, rfl⟩ : ∃ a b c rest', rest = a :: b :: c :: rest' := by
    obtain ⟨a, rest, rfl⟩ := List.exists_cons_of_length_pos (by omega : 0 < rest.length)
    obtain ⟨b, rest, rfl⟩ := List.exists_cons_of_length_pos
      (by rw [List.length_cons] at hlength; omega : 0 < rest.length)
    obtain ⟨c, rest, rfl⟩ := List.exists_cons_of_length_pos
      (by rw [List.length_cons, List.length_cons] at hlength; omega : 0 < rest.length)
    exact ⟨a, b, c, rest, rfl⟩
  have hin : InQuery a ∧ InQuery b ∧ InQuery c := by simpa using hhead
  obtain ⟨ha, hb, hc⟩ := hin
  refine ⟨[a, b, c], rest, rfl, ?_, ?_, fun offset => ?_⟩
  · simp only [byteLength_cons, byteLength_nil, size_of_toNat_lt ha.1, size_of_toNat_lt hb.1,
      size_of_toNat_lt hc.1]
    rfl
  · rw [codeCells, h, queryCells_standIn ha hb hc]
    · rfl
    all_goals simp
  · have hopens : Mode.code.opensQuery '[' (a :: b :: c :: rest) = true := h
    have hnext : Mode.code.next '[' (a :: b :: c :: rest) = .query 1 := by simp [Mode.next, h]
    have hclosed : ∀ d cs, (Mode.query 1).opensQuery d cs = false := fun d cs => rfl
    simp only [queryStarts, hopens, hnext, next_query ha, next_query hb, next_query hc, hclosed,
      size_of_toNat_lt ha.1, size_of_toNat_lt hb.1, size_of_toNat_lt hc.1, if_true,
      Bool.false_eq_true, if_false]
    rfl

/-- Whether a byte is one of the four that the stand-in of a query is written over. -/
def covers (starts : List Nat) (p : Nat) : Bool :=
  starts.any fun q => q ≤ p && p < q + 4

/-- A byte away from all of them is not covered. -/
theorem covers_eq_false {starts : List Nat} {p : Nat} (h : ∀ q ∈ starts, p < q ∨ q + 4 ≤ p) :
    covers starts p = false := by
  rw [covers, List.any_eq_false]
  intro q hq
  have := h q hq
  rw [Bool.and_eq_true, decide_eq_true_iff, decide_eq_true_iff]
  omega

section

variable {feeds starts : List Nat} {offset : Nat}

/-- Nothing is left under a stand-in. -/
theorem filter_covered (h : ∀ p ∈ feeds, offset ≤ p ∧ p < offset + 4) :
    feeds.filter (!covers (offset :: starts) ·) = [] := by
  rw [List.filter_eq_nil_iff]
  intro p hp
  rw [covers, List.any_cons, decide_eq_true (h p hp).1, decide_eq_true (h p hp).2,
    Bool.and_self, Bool.true_or]
  decide

/-- A stand-in covers nothing behind its four bytes. -/
theorem filter_behind (h : ∀ p ∈ feeds, offset + 4 ≤ p) :
    feeds.filter (!covers (offset :: starts) ·) = feeds.filter (!covers starts ·) := by
  apply List.filter_congr
  intro p hp
  have hfrom := h p hp
  rw [covers, List.any_cons, decide_eq_false (by omega : ¬ p < offset + 4), Bool.and_false,
    Bool.false_or]
  rfl

end

/-- **The cells of a text break the line where the text does, except under stand-ins.** -/
theorem lineFeeds_cells (mode : Mode) (offset : Nat) (cs : List Char) :
    lineFeedsFrom offset (encode (cellChars (mode.cells cs)))
      = (lineFeedsFrom offset (encode cs)).filter
          (!covers (queryStarts mode offset cs) ·) := by
  induction hn : cs.length using Nat.strong_induction_on generalizing cs mode offset with
  | _ n ih =>
  subst hn
  cases cs with
  | nil => cases mode <;> rfl
  | cons c rest =>
    cases hopens : mode.opensQuery c rest with
    | false =>
      obtain ⟨cells, hcells, hstands⟩ := mode.steps hopens
      have hrest := ih rest.length (Nat.lt_succ_self _) (mode.next c rest) (offset + c.utf8Size)
        rest rfl
      have hstarts : queryStarts mode offset (c :: rest)
          = queryStarts (mode.next c rest) (offset + c.utf8Size) rest := by
        rw [queryStarts, hopens]
        rfl
      -- the queries to come start behind the character
      have hhere : covers (queryStarts mode offset (c :: rest)) offset = false := by
        apply covers_eq_false
        intro q hq
        rw [hstarts] at hq
        have := le_of_mem_queryStarts hq
        have := c.utf8Size_pos
        omega
      have hkept : (if c = '\n' then [offset] else []).filter
            (!covers (queryStarts mode offset (c :: rest)) ·)
          = if c = '\n' then [offset] else [] := by
        split
        · rw [List.filter_cons, hhere]
          rfl
        · rfl
      rw [hcells, hstands.lineFeeds_append, hrest, lineFeedsFrom_encode_cons, List.filter_append,
        hkept, hstarts]
    | true =>
      have hquery := hopens
      simp only [Mode.opensQuery, Bool.and_eq_true, beq_iff_eq] at hquery
      obtain ⟨⟨rfl, rfl⟩, hstartsQuery⟩ := hquery
      obtain ⟨head, rest, rfl, hfour, hcells, hstarts⟩ := cells_query hstartsQuery
      have hshort : rest.length < ('[' :: (head ++ rest)).length := by
        rw [List.length_cons, List.length_append]
        omega
      have hrest := ih rest.length hshort (.query 1) (offset + 4) rest rfl
      -- the stand-in itself breaks no line
      have hnull : lineFeedsFrom offset (encode "null".toList) = [] := by rfl
      have hwritten : (encode ('[' :: head)).length = 4 := by rw [length_encode, hfour]
      have hcovered : ∀ p ∈ lineFeedsFrom offset (encode ('[' :: head)),
          offset ≤ p ∧ p < offset + 4 := by
        intro p hp
        have hrange := le_of_mem_lineFeedsFrom hp
        omega
      have hbehind : ∀ p ∈ lineFeedsFrom (offset + 4) (encode rest), offset + 4 ≤ p :=
        fun p hp => (le_of_mem_lineFeedsFrom hp).1
      show lineFeedsFrom offset (encode (cellChars (codeCells ('[' :: (head ++ rest))))) = _
      rw [hcells, cellChars_append, encode_append, lineFeedsFrom_append, cellChars_map_other, hnull,
        hstarts, ← List.cons_append, encode_append, lineFeedsFrom_append, List.filter_append,
        hwritten, filter_covered hcovered, filter_behind hbehind]
      exact hrest

/-! ## The other steps -/

/-- What is put for a letter stands for it. -/
theorem stands_reworded {old new : Cell} (h : Reworded old new) : Stands old.char [new] := by
  have hsize := h.size_eq
  rcases h with rfl | ⟨hword, -, -, hbreak⟩
  · exact stands_self ..
  · refine stands_exchanged _ hsize ?_ hbreak
    intro hold
    rw [Cell.inWord, hold] at hword
    exact absurd hword (by simp [show isWordByte '\n' = false by decide])

/-- Masking words keeps line breaks. -/
theorem lineFeeds_reworded {old new : List Cell} (h : List.Forall₂ Reworded old new)
    (offset : Nat) :
    lineFeedsFrom offset (encode (cellChars new))
      = lineFeedsFrom offset (encode (cellChars old)) := by
  induction h generalizing offset with
  | nil => rfl
  | @cons a b old new hcell _ ih =>
    rw [← List.singleton_append, (stands_reworded hcell).lineFeeds_append, ih, cellChars_cons,
      lineFeedsFrom_encode_cons]

/-- Blanking keeps line breaks. -/
theorem lineFeeds_blanked {old new : List Cell} (h : Blanked old new) (offset : Nat) :
    lineFeedsFrom offset (encode (cellChars new))
      = lineFeedsFrom offset (encode (cellChars old)) := by
  induction h generalizing offset with
  | nil => rfl
  | keep cell h ih =>
    rw [cellChars_cons, cellChars_cons, lineFeedsFrom_encode_cons, lineFeedsFrom_encode_cons, ih]
  | blank cell h ih =>
    rw [(stands_blank cell).lineFeeds_append, ih, cellChars_cons, lineFeedsFrom_encode_cons]

/-- A semicolon takes the place of a brace, and the rest of a block is blanked. -/
theorem lineFeeds_maskAccessors (depth : Nat) (cells : List Cell) (offset : Nat) :
    lineFeedsFrom offset (encode (cellChars (maskAccessors depth cells)))
      = lineFeedsFrom offset (encode (cellChars cells)) := by
  induction cells generalizing depth offset with
  | nil => rfl
  | cons cell rest ih =>
    rw [maskAccessors, cellChars_cons, lineFeedsFrom_encode_cons]
    split
    · split
      · rename_i hblock
        simp only [Bool.and_eq_true, beq_iff_eq] at hblock
        -- the brace of a block and the semicolon in its place
        have hstands : Stands cell.char [⟨';', cell.code⟩] := by
          rw [hblock.1.1]
          exact stands_exchanged _ rfl (by decide) (by decide)
        rw [← List.singleton_append, hstands.lineFeeds_append, ih]
      · rw [← List.singleton_append, (stands_self cell.char cell.code).lineFeeds_append, ih]
    · rw [(stands_blank cell).lineFeeds_append, ih]

/-! ## The whole text -/

/-- The line feeds of a text that the stand-in of a query is written over. -/
def lostLineFeeds (text : String) : List Nat :=
  (lineFeeds text).filter (covers (queryStarts .code 0 text.toList))

/-- The line feeds of the masked text, step by step. -/
theorem lineFeeds_mask (text : String) :
    lineFeeds (mask text).1
      = (lineFeeds text).filter (!covers (queryStarts .code 0 text.toList) ·) := by
  have hcells := lineFeeds_cells .code 0 text.toList
  have hwords := lineFeeds_reworded (maskKeywords_reworded (codeCells text.toList)) 0
  have hsharing :=
    lineFeeds_blanked (blankSharing_blanked none 0 (maskKeywords (codeCells text.toList))) 0
  have hmasked : lineFeedsFrom 0 (encode (cellChars (maskedWords text.toList)))
      = (lineFeedsFrom 0 (encode text.toList)).filter
          (!covers (queryStarts .code 0 text.toList) ·) :=
    (hsharing.trans hwords).trans hcells
  rw [lineFeeds, lineFeeds, bytes_eq_encode, bytes_eq_encode, mask, String.toList_ofList, maskChars]
  dsimp only
  rw [lineFeeds_maskAccessors]
  -- a header is blanked as well, if there is one
  cases triggerHeader? (maskedWords text.toList) with
  | none => exact hmasked
  | some h => exact (lineFeeds_blanked (blankRange_blanked h.start h.stop 0 _) 0).trans hmasked

/--
**Masking loses the line feeds under the stand-ins of queries, and no others.** The line feeds of
the masked text are those of the text as written, but for the ones within the first four bytes of a
query. The line of a byte, where a node of the tree starts or ends, is less by the number of these
before it.
-/
theorem mask_lineFeeds (text : String) :
    lineFeeds (mask text).1 = (lineFeeds text).filter (· ∉ lostLineFeeds text) ∧
      (lineFeeds (mask text).1 = lineFeeds text ↔ lostLineFeeds text = []) ∧
      ∀ p, (SourceText.ofString (mask text).1).lineAt p
          + ((lostLineFeeds text).filter (· < p)).length
        = (SourceText.ofString text).lineAt p := by
  have hmask := lineFeeds_mask text
  refine ⟨?_, ?_, fun p => ?_⟩
  · rw [hmask]
    refine List.filter_congr fun p hp => ?_
    simp [lostLineFeeds, hp]
  · rw [hmask, lostLineFeeds, List.filter_eq_self, List.filter_eq_nil_iff]
    exact forall₂_congr fun p _ => by rw [Bool.not_eq_true', Bool.not_eq_true]
  · -- The line feeds before `p` are the lost ones and the others.
    have hsplit := List.length_eq_length_filter_add (l := (lineFeeds text).filter (· < p))
      (covers (queryStarts .code 0 text.toList))
    rw [lineAt_eq, lineAt_eq, hmask, lostLineFeeds, List.filter_comm (· < p) _ (lineFeeds text),
      List.filter_comm (· < p) _ (lineFeeds text)]
    omega

/-- A query that is written on the line below its bracket: the line feed between them is lost, and
everything behind it is said to be one line above where it is. -/
theorem lineFeeds_queryBelow :
    lineFeeds "x = [\nSELECT Id FROM A];\ny();" = [5, 24] ∧
      lineFeeds (mask "x = [\nSELECT Id FROM A];\ny();").1 = [24] ∧
      (SourceText.ofString "x = [\nSELECT Id FROM A];\ny();").lineAt 25 = 3 ∧
      (SourceText.ofString (mask "x = [\nSELECT Id FROM A];\ny();").1).lineAt 25 = 2 := by
  decide +kernel

end SourceAtlas.Extract.Apex
