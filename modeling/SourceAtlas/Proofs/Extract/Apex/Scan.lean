import SourceAtlas.Proofs.Extract.Apex.Segments

/-!
# The spans of code

One scan masks strings and queries and finds the spans of code. Its result is that of reading the
text character by character (`codeSpans_spec`): the buffer holds the cells of the text, and the
spans are the runs of cells that are marked as code, with the stand-ins of queries (`Covers`).
-/

namespace SourceAtlas.Extract.Apex.InPlace

open Buffer Utf8
open Chars (byteLength byteLength_nil byteLength_cons byteLength_append byteLength_concat)

variable {src : List UInt8}

/-! ### Spans -/

/--
The cells of a text from byte `p` on, taken apart into the spans of code and what lies between them.
Of a query, only its stand-in is a span, although its cells are not marked as code.
-/
inductive Covers : Nat → List Char → List Cell → List Span → Prop
  | nil (p : Nat) : Covers p [] [] []
  | gap {p : Nat} {part cs : List Char} {between cells : List Cell} {spans : List Span}
      (hcode : ∀ cell ∈ between, cell.code = false)
      (hsize : byteLength (cellChars between) = byteLength part)
      (h : Covers (p + byteLength part) cs cells spans) :
      Covers p (part ++ cs) (between ++ cells) spans
  | code {p : Nat} {run cs : List Char} {cells : List Cell} {spans : List Span} (hrun : run ≠ [])
      (hnext : ∀ cell ∈ cells.head?, cell.code = false)
      (h : Covers (p + byteLength run) cs cells spans) :
      Covers p (run ++ cs) (run.map plain ++ cells) ((p, p + byteLength run) :: spans)
  | standIn {p : Nat} {part cs : List Char} {cells : List Cell} {spans : List Span}
      (hfour : byteLength ('[' :: part) = 4) (h : Covers (p + 4) cs cells spans) :
      Covers p ('[' :: part ++ cs) ("null".toList.map other ++ cells) ((p, p + 4) :: spans)

/-- Whether a span has any bytes. -/
def Span.holds (span : Span) : Bool :=
  span.1 < span.2

/-- A run of code becomes a span, unless it is empty. -/
theorem Covers.ofRun {p : Nat} {run cs : List Char} {cells : List Cell} {spans : List Span}
    (hnext : ∀ cell ∈ cells.head?, cell.code = false)
    (h : Covers (p + byteLength run) cs cells spans) :
    Covers p (run ++ cs) (run.map plain ++ cells)
      ([(p, p + byteLength run)].filter Span.holds ++ spans) := by
  cases run with
  | nil =>
    rw [List.filter_cons_of_neg (by simp [Span.holds])]
    exact h
  | cons c run =>
    have hpos := c.utf8Size_pos
    rw [List.filter_cons_of_pos (by simp [Span.holds]; omega)]
    exact .code (List.cons_ne_nil c run) hnext h

section

variable {before cs : List Char} {c : Char}

/-- A step within a character does nothing. -/
theorem scanStep_high (s : Scan) {j : Nat} {d : Char} (hread : read src j = .ok d)
    (hd : 128 ≤ d.toNat) : scanStep src j s = .ok (j + 1, s) := by
  have hrest := slice_to_end (lt_length_of_read hread)
  simp only [scanStep, hread, hrest, Edit.ok_bind, beq_high _ hd, Char.reduceToNat, Nat.reduceLT,
    Bool.false_and, Bool.false_eq_true, if_false, Edit.pure_eq]

/-- A step at a character is decided by that character and by what follows it. -/
theorem scanStep_char (hsrc : At src before (c :: cs)) (s : Scan) :
    scanStep src (byteLength before) s =
      if c == '/' && cs.head? == some '/' then passLine src (byteLength before) s
      else if c == '/' && cs.head? == some '*' then passComment src (byteLength before) s
      else if c == '\'' then passString src (byteLength before) s
      else if c == '[' && startsQuery cs then passQuery src (byteLength before) s
      else .ok (byteLength before + 1, s) := by
  have hrest := slice_to_end hsrc.lt_length
  -- only behind a bracket does the rest of the text matter
  have hstarts : (c == '[' && startsQueryBytes (src.drop (byteLength before + 1)))
      = (c == '[' && startsQuery cs) := by
    by_cases hc : c = '['
    · subst hc
      have hdrop := hsrc.next.drop_eq
      rw [byteLength_concat] at hdrop
      rw [show '['.utf8Size = 1 by decide] at hdrop
      rw [hdrop, startsQueryBytes_encode]
    · rw [beq_eq_false_iff_ne.mpr hc, Bool.false_and, Bool.false_and]
  simp only [scanStep, hsrc.read_eq, Edit.ok_bind, lead_beq, hsrc.pair_eq, Char.reduceToNat,
    Nat.reduceLT, Edit.pure_eq, hrest, hstarts]

end

/--
A part of the text that is no code: its cells, the spans it holds, and where a scan goes on that
comes to it.
-/
structure IsSegment (src : List UInt8) (before part rest : List Char) (between : List Cell)
    (more : List Span) (stop : Nat) : Prop where
  cells : codeCells (part ++ rest) = between ++ codeCells rest
  head : between.head?.map Cell.code = some false
  size : byteLength (cellChars between) = byteLength part
  holds : more.filter Span.holds = more
  covers : ∀ found,
    Covers (byteLength (before ++ part)) rest (codeCells rest) found →
      Covers (byteLength before) (part ++ rest) (between ++ codeCells rest) (more ++ found)
  min_stop : min stop src.length = byteLength (before ++ part)
  step : ∀ (s : Scan) (out : List UInt8), out.length = byteLength before →
    s.bytes = out ++ encode (part ++ rest) →
    scanStep src (byteLength before) s
      = .ok (stop, ⟨byteLength (before ++ part),
          out ++ encode (cellChars between) ++ encode rest,
          s.spansTo (byteLength before) ++ more⟩)

/-- A string is masked behind its first quote, which is exchanged as well. -/
theorem passString_eq {i stop : Nat} {s : Scan} {bytes bytes' : List UInt8}
    (hput : put s.bytes i '"' = .ok bytes)
    (hmask : maskString src (i + 1) bytes = .ok (stop, bytes')) :
    passString src i s = .ok (stop, ⟨min stop src.length, bytes', s.spansTo i⟩) := by
  rw [passString, hput, Edit.ok_bind, hmask]
  rfl

/-- A query of four bytes or more becomes its stand-in and blanks. -/
theorem passQuery_eq {before head body rest : List Char} {s : Scan} {out : List UInt8}
    (hfour : byteLength head = 4) (hout : out.length = byteLength before)
    (hbytes : s.bytes = out ++ encode (head ++ body ++ rest))
    (hbracket : matchingBracket src (byteLength before)
      = .ok (byteLength (before ++ (head ++ body)))) :
    passQuery src (byteLength before) s
      = .ok (byteLength (before ++ (head ++ body)), ⟨byteLength (before ++ (head ++ body)),
          out ++ encode "null".toList ++ ((encode body).map blankByte ++ encode rest),
          s.spansTo (byteLength before) ++ [(byteLength before, byteLength before + 4)]⟩) := by
  have hsplit : s.bytes = out ++ encode (head ++ body) ++ encode rest := by
    rw [hbytes, encode_append, List.append_assoc]
  have hblank := blank_at hsplit hout.symm rfl
  rw [hout, length_encode, ← byteLength_append] at hblank
  -- first all of the query is blanked, then the stand-in is written over the start
  have hcopy : copyOver (out ++ (encode head).map blankByte
        ++ ((encode body).map blankByte ++ encode rest)) (byteLength before)
      (byteLength before + 4) (encode "null".toList)
      = .ok (out ++ encode "null".toList ++ ((encode body).map blankByte ++ encode rest)) := by
    apply copyOver_at rfl hout.symm
    · rw [hout, List.length_map, length_encode, hfour]
    · rw [List.length_map, length_encode, length_encode, hfour]
      rfl
  have hsame : out ++ (encode (head ++ body)).map blankByte ++ encode rest
      = out ++ (encode head).map blankByte ++ ((encode body).map blankByte ++ encode rest) := by
    rw [encode_append, List.map_append]
    simp only [List.append_assoc]
  rw [passQuery, hbracket, Edit.ok_bind, hblank, Edit.ok_bind, hsame, hcopy]
  rfl

section

variable {before cs : List Char}

/-- A part whose cells are its own characters. -/
theorem IsSegment.ofOther {part rest : List Char} {first : Char}
    (hsrc : At src before (part ++ rest)) (hhead : part.head? = some first)
    (hcells : codeCells (part ++ rest) = part.map other ++ codeCells rest)
    (hstep : ∀ s, scanStep src (byteLength before) s
      = .ok (byteLength (before ++ part), ⟨byteLength (before ++ part), s.bytes,
          s.spansTo (byteLength before)⟩)) :
    IsSegment src before part rest (part.map other) [] (byteLength (before ++ part)) where
  cells := hcells
  head := by rw [List.head?_map, hhead]; rfl
  size := by rw [cellChars_map_other]
  holds := rfl
  covers := by
    intro found h
    rw [byteLength_append] at h
    exact .gap (fun cell => code_of_mem_map_other) (by rw [cellChars_map_other]) h
  min_stop := hsrc.append.min_eq
  step := by
    intro s out _ hbytes
    rw [hstep, hbytes, cellChars_map_other, encode_append, List.append_assoc, List.append_nil]

/-- A comment up to the end of the line. -/
theorem segment_line (hsrc : At src before ('/' :: '/' :: cs)) :
    ∃ part rest between more stop, '/' :: '/' :: cs = part ++ rest ∧
      IsSegment src before part rest between more stop := by
  have hsplit : '/' :: '/' :: cs
      = ('/' :: '/' :: cs.takeWhile (· != '\n')) ++ cs.dropWhile (· != '\n') := by
    rw [List.cons_append, List.cons_append, List.takeWhile_append_dropWhile]
  refine ⟨_, _, _, _, _, hsplit, .ofOther (hsplit ▸ hsrc) rfl ?_ ?_⟩
  · rw [← hsplit, codeCells, lineCommentCells_eq]
    rfl
  · intro s
    rw [scanStep_char hsrc, if_pos (by rfl), passLine, lineEnd_eq hsrc]
    rfl

/-- A comment between marks, or up to the end of the text. -/
theorem segment_comment (hsrc : At src before ('/' :: '*' :: cs)) :
    ∃ part rest between more stop, '/' :: '*' :: cs = part ++ rest ∧
      IsSegment src before part rest between more stop := by
  obtain ⟨body, rest, stop, rfl, hcells, hend, hmin⟩ := commentEnd_spec hsrc.next_next
  rw [List.append_assoc] at hmin
  refine ⟨['/', '*'] ++ body, rest, _, _, _, rfl, .ofOther hsrc rfl ?_ ?_⟩
  · rw [List.append_assoc, List.cons_append, List.cons_append, codeCells, List.nil_append, hcells]
    rfl
  · intro s
    -- the end is looked for behind the opening mark
    have htwo : byteLength (before ++ ['/', '*']) = byteLength before + 2 := by
      rw [byteLength_append]
      rfl
    rw [htwo] at hend
    rw [scanStep_char hsrc, if_neg (by simp), if_pos (by rfl), passComment, hend, ← hmin]
    rfl

/-- A string, up to its quote or the end of the line. -/
theorem segment_string (hsrc : At src before ('\'' :: cs)) :
    ∃ part rest between more stop, '\'' :: cs = part ++ rest ∧
      IsSegment src before part rest between more stop := by
  obtain ⟨body, masked, rest, stop, rfl, hcells, hsize, hmin, hmask⟩ :=
    masksString hsrc.next hsrc.next.min_eq
  rw [List.append_assoc] at hmin
  have hbetween : byteLength (cellChars (('"' :: masked).map other))
      = byteLength ('\'' :: body) := by
    rw [cellChars_map_other, byteLength_cons, byteLength_cons, hsize]
    rfl
  refine ⟨'\'' :: body, rest, ('"' :: masked).map other, [], stop, rfl, ?_⟩
  exact {
    cells := by
      rw [List.cons_append, codeCells, hcells]
      rfl
    head := rfl
    size := hbetween
    holds := rfl
    covers := by
      intro found h
      rw [byteLength_append] at h
      exact .gap (fun cell => code_of_mem_map_other) hbetween h
    min_stop := hmin
    step := by
      intro s out hout hbytes
      -- the part before now ends with the new quote, of the same length as the old one
      have hout' : (out ++ encode ['"']).length = byteLength (before ++ ['\'']) := by
        rw [List.length_append, hout, byteLength_append]
        rfl
      have hput : put s.bytes (byteLength before) '"'
          = .ok (out ++ encode ['"'] ++ encode (body ++ rest)) := by
        rw [hbytes]
        exact put_char (by decide) (by decide) hout.symm
      have hstring := hmask _ hout'
      rw [byteLength_concat] at hstring
      rw [scanStep_char hsrc, if_neg (by simp), if_neg (by simp), if_pos (by rfl),
        passString_eq hput hstring, hmin, cellChars_map_other, List.append_nil,
        List.append_assoc out, ← encode_append]
      rfl }

/-- A query after its bracket and the three characters that the rest of its stand-in covers. -/
theorem queryCells_standIn {a b c : Char} (ha : InQuery a) (hb : InQuery b) (hc : InQuery c)
    (cs : List Char) :
    queryCells ['u', 'l', 'l'] 1 (a :: b :: c :: cs)
      = ['u', 'l', 'l'].map other ++ queryCells [] 1 cs := by
  -- none of the three characters is a bracket or a quote
  have hstep : ∀ {x s : Char} {stand cs : List Char}, InQuery x →
      queryCells (s :: stand) 1 (x :: cs) = other s :: queryCells stand 1 cs := by
    intro x s stand cs hx
    have hne := hx.2
    simp only [List.mem_cons, List.not_mem_nil, or_false, not_or] at hne
    rw [queryCells]
    · rfl
    all_goals simp_all
  rw [hstep ha, hstep hb, hstep hc]
  rfl

/-- The bracket that closes a query is looked for from the one that opens it. -/
theorem matchingBracket_passes {a b c : Char} (ha : InQuery a) (hb : InQuery b) (hc : InQuery c)
    (hsrc : At src before ('[' :: a :: b :: c :: cs)) :
    ∃ body rest, cs = body ++ rest ∧ queryCells [] 1 cs = blanked body ++ codeCells rest ∧
      matchingBracket src (byteLength before)
        = .ok (byteLength (before ++ '[' :: a :: b :: c :: body)) := by
  have h₁ := hsrc.next
  have h₂ := h₁.next
  have h₃ := h₂.next
  have h₄ := h₃.next
  obtain ⟨body, rest, stop, rfl, hcells, hstop, hmin⟩ := queryEnd_passes Nat.one_pos h₄ h₄.min_eq
  refine ⟨body, rest, rfl, hcells, ?_⟩
  have hopen : queryEnd src (byteLength before) 0 = .ok stop := by
    rw [queryEnd_open hsrc, queryEnd_plain h₁ ha.2, queryEnd_plain h₂ hb.2, queryEnd_plain h₃ hc.2]
    exact hstop
  rw [matchingBracket, hopen, Edit.ok_bind, hmin]
  simp only [List.append_assoc, List.cons_append, List.nil_append, Edit.pure_eq]

/-- A query: its stand-in is a span, and the rest is blanked. -/
theorem segment_query (hsrc : At src before ('[' :: cs)) (hstarts : startsQuery cs = true) :
    ∃ part rest between more stop, '[' :: cs = part ++ rest ∧
      IsSegment src before part rest between more stop := by
  obtain ⟨hlength, hhead⟩ := startsQuery_head hstarts
  obtain ⟨a, b, c, cs, rfl⟩ : ∃ a b c cs', cs = a :: b :: c :: cs' := by
    match cs, hlength with
    | a :: b :: c :: cs', _ => exact ⟨a, b, c, cs', rfl⟩
  have hin : InQuery a ∧ InQuery b ∧ InQuery c := by simpa using hhead
  obtain ⟨ha, hb, hc⟩ := hin
  obtain ⟨body, rest, rfl, hcells, hbracket⟩ := matchingBracket_passes ha hb hc hsrc
  -- its first letters are of ASCII, so the bracket and three more characters are four bytes
  have hfour : byteLength ['[', a, b, c] = 4 := by
    simp only [byteLength_cons, byteLength_nil, size_of_toNat_lt ha.1, size_of_toNat_lt hb.1,
      size_of_toNat_lt hc.1]
    rfl
  have hnull : byteLength (cellChars ("null".toList.map other)) = 4 := by
    rw [cellChars_map_other]
    rfl
  have hsrc' : At src before (['[', a, b, c] ++ body ++ rest) := hsrc
  refine ⟨['[', a, b, c] ++ body, rest, "null".toList.map other ++ blanked body,
    [(byteLength before, byteLength before + 4)],
    byteLength (before ++ (['[', a, b, c] ++ body)), rfl, ?_⟩
  exact {
    cells := by
      rw [List.append_assoc, List.append_assoc, ← hcells]
      show codeCells ('[' :: a :: b :: c :: (body ++ rest)) = _
      rw [codeCells, hstarts, queryCells_standIn ha hb hc]
      · rfl
      all_goals simp
    head := rfl
    size := by
      rw [cellChars_append, byteLength_append, byteLength_blanked, hnull, byteLength_append, hfour]
    holds := by
      rw [List.filter_cons_of_pos (by simp [Span.holds])]
      rfl
    covers := by
      intro found h
      rw [byteLength_append, byteLength_append, hfour, ← Nat.add_assoc] at h
      have hgap := Covers.gap (fun cell => code_of_mem_blanked) (byteLength_blanked body) h
      rw [List.append_assoc, List.append_assoc]
      exact .standIn hfour hgap
    min_stop := hsrc'.append.min_eq
    step := by
      intro s out hout hbytes
      rw [scanStep_char hsrc, if_neg (by simp), if_neg (by simp), if_neg (by simp),
        if_pos (by rw [hstarts]; rfl), passQuery_eq hfour hout hbytes hbracket, cellChars_append,
        encode_append, encode_blanked, cellChars_map_other]
      simp only [List.append_assoc] }

end

/--
A scan that has passed `before` and then `run`, which is code, finds the spans from `run` on and
masks what is left.
-/
def Scans (src : List UInt8) (before run cs : List Char) (i : Nat) : Prop :=
  ∃ found, Covers (byteLength before) (run ++ cs) (run.map plain ++ codeCells cs) found ∧
    ∀ (out : List UInt8) (spans : List Span), out.length = byteLength before →
      scanFrom src i ⟨byteLength before, out ++ encode run ++ encode cs, spans⟩
        = .ok (out ++ encode run ++ encode (cellChars (codeCells cs)),
            spans.filter Span.holds ++ found)

section

variable {before run cs : List Char} {i : Nat}

/-- One step, and the scan goes on where it says. -/
theorem scanFrom_yield (hi : i < src.length) {s s' : Scan} {j : Nat}
    (hstep : scanStep src i s = .ok (j, s')) (hj : i < j) :
    scanFrom src i s = scanFrom src j s' := by
  rw [scanFrom, loop_yield hi (by rw [hstep]; rfl) hj, scanFrom]

/-- A step that leaves a character leaves the rest of its bytes, too. -/
theorem scanFrom_char {c : Char} (hsrc : At src before (c :: cs)) {s : Scan}
    (hstep : scanStep src (byteLength before) s = .ok (byteLength before + 1, s)) :
    scanFrom src (byteLength before) s = scanFrom src (byteLength (before ++ [c])) s := by
  rw [scanFrom, loop_char hsrc hsrc.size_le (by rw [hstep]; rfl), scanFrom]
  intro j d hread hd
  rw [scanStep_high s hread hd]
  rfl

/-- A part that is no code is not empty, so the scan advances. -/
theorem IsSegment.size_pos {part rest : List Char} {between : List Cell} {more : List Span}
    {stop : Nat} (h : IsSegment src before part rest between more stop) :
    0 < byteLength part := by
  obtain ⟨first, hfirst, -⟩ := Option.map_eq_some_iff.mp h.head
  obtain ⟨others, rfl⟩ := List.head?_eq_some_iff.mp hfirst
  rw [← h.size]
  exact Nat.add_pos_left first.char.utf8Size_pos _

/-- At the end of the text the run of code before it is the last span. -/
theorem scans_end (hsrc : At src (before ++ run) [])
    (hi : min i src.length = byteLength (before ++ run)) : Scans src before run [] i := by
  have hend := hsrc.length_le_of_min hi
  refine ⟨_, Covers.ofRun (by simp [codeCells]) (by rw [codeCells]; exact .nil _), ?_⟩
  intro out spans _
  rw [scanFrom, loop_end hend, Edit.ok_bind]
  show Except.ok (Scan.finish src.length _) = _
  rw [Scan.finish, hsrc.length_eq, byteLength_append, List.filter_append, List.append_nil]
  rfl

/-- A scan passes over what is no code: the run of code before it is a span. -/
theorem Scans.pass {part rest : List Char} {between : List Cell} {more : List Span} {stop : Nat}
    (hseg : IsSegment src (before ++ run) part rest between more stop)
    (hsrc : At src (before ++ run) (part ++ rest))
    (h : Scans src (before ++ run ++ part) [] rest stop) :
    Scans src before run (part ++ rest) (byteLength (before ++ run)) := by
  obtain ⟨found, hcovers, hscan⟩ := h
  -- what comes behind the run is no code, so the run ends there
  have hnext : ∀ cell ∈ (between ++ codeCells rest).head?, cell.code = false := by
    obtain ⟨first, hfirst, hcode⟩ := Option.map_eq_some_iff.mp hseg.head
    intro cell hcell
    rw [List.head?_append, hfirst, Option.some_or, Option.mem_some_iff] at hcell
    rw [← hcell, hcode]
  have hpart := hseg.size_pos
  have hspans := hseg.covers found hcovers
  rw [byteLength_append before run] at hspans
  refine ⟨_, hseg.cells ▸ Covers.ofRun hnext hspans, ?_⟩
  intro out spans hout
  have hout' : (out ++ encode run).length = byteLength (before ++ run) := by
    rw [List.length_append, hout, length_encode, byteLength_append]
  have hstep := hseg.step
    ⟨byteLength before, out ++ encode run ++ encode (part ++ rest), spans⟩ _ hout' rfl
  -- what is put out so far has the length of what was read
  have hout'' : (out ++ encode run ++ encode (cellChars between)).length
      = byteLength (before ++ run ++ part) := by
    rw [List.length_append, hout', length_encode, hseg.size, byteLength_append (before ++ run)]
  have hmin := hseg.min_stop
  have hlength := hsrc.length
  rw [byteLength_append part] at hlength
  rw [byteLength_append (before ++ run)] at hmin
  rw [scanFrom_yield (by omega) hstep (by omega)]
  have hrest := hscan _ (spans ++ [(byteLength before, byteLength (before ++ run))] ++ more) hout''
  rw [encode_nil, List.append_nil] at hrest
  rw [Scan.spansTo, hrest, hseg.cells, cellChars_append, encode_append, List.filter_append,
    List.filter_append, hseg.holds, byteLength_append before run]
  simp only [List.append_assoc]

/-- A scan passes over a character of code, which joins the run. -/
theorem Scans.plain {c : Char} (hsrc : At src (before ++ run) (c :: cs))
    (hcells : codeCells (c :: cs) = plain c :: codeCells cs)
    (hstep : ∀ s, scanStep src (byteLength (before ++ run)) s
      = .ok (byteLength (before ++ run) + 1, s))
    (h : Scans src before (run ++ [c]) cs (byteLength (before ++ run ++ [c]))) :
    Scans src before run (c :: cs) (byteLength (before ++ run)) := by
  obtain ⟨found, hcovers, hscan⟩ := h
  refine ⟨found, ?_, ?_⟩
  · rw [hcells]
    rw [List.map_append, List.append_assoc, List.append_assoc] at hcovers
    exact hcovers
  · intro out spans hout
    have hbytes :
        out ++ encode run ++ encode (c :: cs) = out ++ encode (run ++ [c]) ++ encode cs := by
      rw [encode_append, encode_singleton, encode_cons]
      simp only [List.append_assoc]
    rw [scanFrom_char hsrc (hstep _), hbytes, hscan out spans hout, hcells, encode_append]
    simp only [cellChars_cons, encode_cons, List.append_assoc]
    rfl

/-- A scan from any place on, by induction on what is left of the text. -/
theorem scans (hsrc : At src (before ++ run) cs)
    (hi : min i src.length = byteLength (before ++ run)) : Scans src before run cs i := by
  induction hn : cs.length using Nat.strong_induction_on generalizing cs before run i with
  | _ n ih =>
  subst hn
  cases cs with
  | nil => exact scans_end hsrc hi
  | cons c cs =>
    obtain rfl := hsrc.eq_of_min hi
    -- whatever is no code is passed as a whole, and the rest is shorter
    have hpass : (∃ part rest between more stop, c :: cs = part ++ rest ∧
          IsSegment src (before ++ run) part rest between more stop) →
        Scans src before run (c :: cs) (byteLength (before ++ run)) := by
      rintro ⟨part, rest, between, more, stop, heq, hseg⟩
      rw [heq] at hsrc ⊢
      have hshort : rest.length < (c :: cs).length := by
        rw [heq, List.length_append]
        have := List.length_pos_iff.mpr (fun h : part = [] => by simpa [h] using hseg.size_pos)
        omega
      have hrest : At src (before ++ run ++ part ++ []) rest := by
        rw [List.append_nil]
        exact hsrc.append
      refine Scans.pass hseg hsrc (ih rest.length hshort hrest ?_ rfl)
      rw [List.append_nil, hseg.min_stop]
    by_cases hline : c = '/' ∧ cs.head? = some '/'
    · obtain ⟨rfl, hhead⟩ := hline
      obtain ⟨cs, rfl⟩ := List.head?_eq_some_iff.mp hhead
      exact hpass (segment_line hsrc)
    by_cases hcomment : c = '/' ∧ cs.head? = some '*'
    · obtain ⟨rfl, hhead⟩ := hcomment
      obtain ⟨cs, rfl⟩ := List.head?_eq_some_iff.mp hhead
      exact hpass (segment_comment hsrc)
    by_cases hstring : c = '\''
    · subst hstring
      exact hpass (segment_string hsrc)
    by_cases hquery : c = '[' ∧ startsQuery cs = true
    · obtain ⟨rfl, hstarts⟩ := hquery
      exact hpass (segment_query hsrc hstarts)
    -- nothing of the kind starts here: the character is code
    refine Scans.plain hsrc ?_ ?_ ?_
    · rw [codeCells]
      · rw [if_neg (by simpa using hquery)]
      · rintro rest rfl rfl
        exact hline ⟨rfl, rfl⟩
      · rintro rest rfl rfl
        exact hcomment ⟨rfl, rfl⟩
      · exact hstring
    · intro s
      simp only [scanStep_char hsrc, Bool.and_eq_true, beq_iff_eq, hline, hcomment, hstring, hquery,
        if_false]
    · rw [List.append_assoc] 
      have hnext := hsrc.next
      rw [List.append_assoc] at hnext
      exact ih cs.length (Nat.lt_succ_self _) hnext hnext.min_eq rfl

end

/-- **The scan.** It comes out with the cells of the text, and with spans that cover its code. -/
theorem codeSpans_spec (cs : List Char) :
    ∃ spans, codeSpans (encode cs) = .ok (encode (cellChars (codeCells cs)), spans) ∧
      Covers 0 cs (codeCells cs) spans := by
  have hsrc : At (encode cs) ([] ++ []) cs := rfl
  obtain ⟨found, hcovers, hscan⟩ := scans hsrc (by rw [List.append_nil]; exact Nat.zero_min _)
  exact ⟨found, hscan [] [] rfl, hcovers⟩

end SourceAtlas.Extract.Apex.InPlace
