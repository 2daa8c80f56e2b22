import SourceAtlas.Proofs.Extract.Apex.Cells
import SourceAtlas.Extract.Apex.InPlace

/-!
# Comments, strings and queries

The loops that look for the end of a comment, a string or a query in the bytes of a text, and the
cells of what they pass. Each comes out at the end of a character, or past the end of the text where
nothing ends what has begun, which the minimum with the number of bytes takes into account.

* `lineEnd_eq`, `commentEnd_spec`: comments.
* `masksString`: strings, which change in place.
* `queryEnd_passes`: queries, with the strings and the brackets in them.
* `startsQueryBytes_encode`, `startsQuery_head`: what a query starts with.
-/

namespace SourceAtlas.Extract.Apex.InPlace

open Buffer Utf8
open Chars (byteLength byteLength_nil byteLength_cons byteLength_append byteLength_concat)

section

variable {size i : Nat} {stop : Nat → Edit Bool}

/-- A search that starts behind the text is over. -/
theorem seek_end (hi : size ≤ i) : seek size stop i = .ok i := by
  rw [seek, loop_end hi]
  rfl

/-- A search ends where it finds what it looks for. -/
theorem seek_here (hi : i < size) (hstop : stop i = .ok true) : seek size stop i = .ok i := by
  rw [seek, loop_done (r := (i, ())) hi (by rw [hstop]; rfl)]
  rfl

theorem seek_next (hi : i < size) (hstop : stop i = .ok false) :
    seek size stop i = seek size stop (i + 1) := by
  rw [seek, loop_yield hi (by rw [hstop]; rfl) (Nat.lt_succ_self i), seek]

/-- A search passes over a character whose first byte is not what it looks for. -/
theorem seek_char {bs : List UInt8} {before cs : List Char} {c : Char}
    (hbs : At bs before (c :: cs)) (hsize : byteLength before + c.utf8Size ≤ size)
    (hlead : stop (byteLength before) = .ok false)
    (hhigh : ∀ j d, read bs j = .ok d → 128 ≤ d.toNat → stop j = .ok false) :
    seek size stop (byteLength before) = seek size stop (byteLength (before ++ [c])) := by
  rw [seek, seek, loop_char hbs hsize (by rw [hlead]; rfl)]
  intro j d hread hd
  rw [hhigh j d hread hd]
  rfl

end

variable {src : List UInt8}

/-! ### Comments -/

/-- A comment of one line ends before the line break. -/
theorem lineEnd_eq {cs before : List Char} (hsrc : At src before cs) :
    lineEnd src (byteLength before)
      = .ok (byteLength (before ++ cs.takeWhile (· != '\n'))) := by
  unfold lineEnd
  induction cs generalizing before with
  | nil => rw [seek_end (Nat.le_of_eq hsrc.length_eq), List.takeWhile_nil, List.append_nil]
  | cons c cs ih =>
    have hread := hsrc.read_eq
    by_cases hc : c = '\n'
    · subst hc
      rw [seek_here hsrc.lt_length (by rw [hread, Edit.ok_bind, lead_beq (by decide)]; rfl)]
      rw [List.takeWhile_cons_of_neg (by decide), List.append_nil]
    · rw [seek_char hsrc hsrc.size_le, ih hsrc.next, List.takeWhile_cons_of_pos (by simpa using hc),
        List.append_assoc, List.singleton_append]
      · -- at its first byte the character is no line break
        rw [hread, Edit.ok_bind, lead_beq (by decide), beq_eq_false_iff_ne.mpr hc]
        rfl
      · -- and its other bytes are no characters of ASCII at all
        intro j d hj hd
        rw [hj, Edit.ok_bind, beq_high (by decide) hd]
        rfl

/-- The cells of such a comment, with those of the code from the line break on. -/
theorem lineCommentCells_eq (cs : List Char) :
    lineCommentCells cs
      = (cs.takeWhile (· != '\n')).map other ++ codeCells (cs.dropWhile (· != '\n')) := by
  induction cs with
  | nil => rfl
  | cons c cs ih =>
    by_cases hc : c = '\n'
    · subst hc
      rw [List.takeWhile_cons_of_neg (by decide), List.dropWhile_cons_of_neg (by decide)]
      rfl
    · rw [lineCommentCells, ih, List.takeWhile_cons_of_pos (by simpa using hc),
        List.dropWhile_cons_of_pos (by simpa using hc)]
      · rfl
      · exact hc

/-- What a scan finds of a comment between marks: the text it covers, and where it ends. -/
theorem commentEnd_spec {cs before : List Char} (hsrc : At src before cs) :
    ∃ body rest stop, cs = body ++ rest ∧
      blockCommentCells cs = body.map other ++ codeCells rest ∧
      commentEnd src (byteLength before) = .ok stop ∧
      min (stop + 2) src.length = byteLength (before ++ body) := by
  unfold commentEnd
  induction cs generalizing before with
  | nil =>
    -- nothing closes the comment: two more bytes would be past the end
    refine ⟨[], [], _, rfl, rfl, seek_end (Nat.le_of_eq hsrc.length_eq), ?_⟩
    rw [hsrc.length_eq, List.append_nil]
    omega
  | cons c cs ih =>
    have hstop := hsrc.pair_eq (a := '*') (b := '/') (by decide) (by decide)
    cases hclose : c == '*' && cs.head? == some '/' with
    | true =>
      rw [Bool.and_eq_true, beq_iff_eq, beq_iff_eq] at hclose
      obtain ⟨rfl, hhead⟩ := hclose
      obtain ⟨rest, rfl⟩ := List.head?_eq_some_iff.mp hhead
      refine ⟨['*', '/'], rest, _, rfl, by rw [blockCommentCells]; rfl,
        seek_here hsrc.lt_length ?_, ?_⟩
      · rw [hsrc.read_eq, Edit.ok_bind, lead_beq (by decide), hstop]
        rfl
      · have := hsrc.next.size_le
        rw [byteLength_concat] at this
        rw [byteLength_append]
        exact Nat.min_eq_left this
    | false =>
      obtain ⟨body, rest, stop, rfl, hcells, hseek, hmin⟩ := ih hsrc.next
      refine ⟨c :: body, rest, stop, rfl, ?_, ?_, by rw [List.append_cons, hmin]⟩
      · rw [blockCommentCells, hcells]
        · rfl
        · -- were this the closing mark, the search would have ended here
          rintro rest' rfl h
          rw [h] at hclose
          exact absurd hclose (by simp)
      · rw [seek_char hsrc hsrc.size_le, hseek]
        · rw [hsrc.read_eq, Edit.ok_bind, lead_beq (by decide), hstop, hclose]
          rfl
        · intro j d hj hd
          rw [hj, Edit.ok_bind, beq_high (by decide) hd]
          rfl

/-! ### Strings -/

/-- A byte outside ASCII is passed as it is. -/
theorem stringTurn_high (bytes : List UInt8) {j : Nat} {d : Char} (hread : read src j = .ok d)
    (hd : 128 ≤ d.toNat) : stringTurn src j bytes = .ok (.yield (j + 1, bytes)) := by
  simp only [stringTurn, hread, Edit.ok_bind, beq_high _ hd, Char.reduceToNat, Nat.reduceLT,
    Bool.or_self, Bool.false_eq_true, if_false, Edit.pure_eq]

/-- What a turn does at the first byte of a character, told by the character. -/
theorem stringTurn_char {before cs : List Char} {c : Char} (hsrc : At src before (c :: cs))
    (bytes : List UInt8) :
    stringTurn src (byteLength before) bytes =
      if c == '\'' || c == '\n' then .ok (.done (byteLength before, bytes))
      else if c == '\\' then .ok (.yield (byteLength before + 2, bytes))
      else if c == '"' then do
        let bytes ← put bytes (byteLength before) '\''
        return .yield (byteLength before + 1, bytes)
      else .ok (.yield (byteLength before + 1, bytes)) := by
  simp only [stringTurn, hsrc.read_eq, Edit.ok_bind, lead_beq, Char.reduceToNat, Nat.reduceLT,
    Edit.pure_eq]

section

variable {before cs : List Char} {c : Char} {out : List UInt8}

/-- A string that the text ends in ends there. -/
theorem maskString_end {i : Nat} (hi : src.length ≤ i) (bytes : List UInt8) :
    maskString src i bytes = .ok (i + 1, bytes) := by
  rw [maskString, loop_end hi, Edit.ok_bind]
  exact if_neg (Nat.not_lt.mpr hi)

/-- Masking a string is what its loop does, and one step to end it. -/
theorem maskString_congr {i j : Nat} {bytes bytes' : List UInt8}
    (h : loop src.length (stringTurn src) i bytes = loop src.length (stringTurn src) j bytes') :
    maskString src i bytes = maskString src j bytes' := by
  rw [maskString, h, maskString]

/-- The closing quote becomes a double one. -/
theorem maskString_quote (hsrc : At src before ('\'' :: cs))
    (hout : out.length = byteLength before) :
    maskString src (byteLength before) (out ++ encode ('\'' :: cs))
      = .ok (byteLength (before ++ ['\'']), out ++ encode ['"'] ++ encode cs) := by
  have hlt := hsrc.lt_length
  rw [maskString, loop_done hlt (stringTurn_char hsrc _), Edit.ok_bind]
  simp only [if_pos hlt, hsrc.read_eq, Edit.ok_bind, lead_beq, Char.reduceToNat, Nat.reduceLT,
    beq_self_eq_true, if_true]
  rw [put_char (by decide) (by decide) hout.symm, Edit.ok_bind, byteLength_concat]
  rfl

/-- A line break ends a string that nothing closes, and stays. -/
theorem maskString_break (hsrc : At src before ('\n' :: cs)) (bytes : List UInt8) :
    maskString src (byteLength before) bytes
      = .ok (byteLength (before ++ ['\n']), bytes) := by
  have hlt := hsrc.lt_length
  rw [maskString, loop_done hlt (stringTurn_char hsrc _), Edit.ok_bind]
  simp only [if_pos hlt, hsrc.read_eq, Edit.ok_bind, lead_beq, Char.reduceToNat, Nat.reduceLT]
  rw [byteLength_concat]
  rfl

/-- An escaped character is passed with its backslash. -/
theorem maskString_escape {d : Char} (hsrc : At src before ('\\' :: d :: cs))
    (bytes : List UInt8) :
    maskString src (byteLength before) bytes
      = maskString src (byteLength (before ++ ['\\', d])) bytes := by
  apply maskString_congr
  exact loop_escape hsrc (by decide) hsrc.next.size_le (stringTurn_char hsrc bytes)
    fun _ _ => stringTurn_high bytes

/-- A backslash at the end of the text is passed with a character that is not there. -/
theorem maskString_escape_end (hsrc : At src before ['\\']) (bytes : List UInt8) :
    maskString src (byteLength before) bytes
      = maskString src (byteLength before + 2) bytes := by
  apply maskString_congr
  rw [loop_yield hsrc.lt_length (stringTurn_char hsrc bytes) (by omega)]

/-- A double quote within the string becomes a single one. -/
theorem maskString_double (hsrc : At src before ('"' :: cs))
    (hout : out.length = byteLength before) :
    maskString src (byteLength before) (out ++ encode ('"' :: cs))
      = maskString src (byteLength (before ++ ['"'])) (out ++ encode ['\''] ++ encode cs) := by
  apply maskString_congr
  apply loop_char hsrc hsrc.size_le _ fun _ _ => stringTurn_high _
  rw [stringTurn_char hsrc, put_char (by decide) (by decide) hout.symm]
  rfl

theorem maskString_plain (hsrc : At src before (c :: cs))
    (hc : c ∉ ['\'', '\n', '\\', '"']) (bytes : List UInt8) :
    maskString src (byteLength before) bytes
      = maskString src (byteLength (before ++ [c])) bytes := by
  apply maskString_congr
  apply loop_char hsrc hsrc.size_le _ fun _ _ => stringTurn_high _
  simp only [List.mem_cons, List.not_mem_nil, or_false, not_or] at hc
  simp only [stringTurn_char hsrc, beq_iff_eq, Bool.or_eq_true, hc, or_self, if_false]

end

/--
The string that goes on with `cs` is masked up to its end: what it covers changes into bytes of the
same number, and the scan goes on behind it.
-/
def MasksString (src : List UInt8) (before cs : List Char) (i : Nat) : Prop :=
  ∃ body masked rest stop, cs = body ++ rest ∧
    stringCells cs = masked.map other ++ codeCells rest ∧
    byteLength masked = byteLength body ∧
    min stop src.length = byteLength (before ++ body) ∧
    ∀ out : List UInt8, out.length = byteLength before →
      maskString src i (out ++ encode cs) = .ok (stop, out ++ encode masked ++ encode rest)

/-- A part that changes into one of the same size can be put before the rest of a string. -/
theorem MasksString.extend (part part' : List Char) (j : Nat) {before cs : List Char} {i : Nat}
    (hsize : byteLength part' = byteLength part)
    (hcells : stringCells (part ++ cs) = part'.map other ++ stringCells cs)
    (hmask : ∀ out : List UInt8, out.length = byteLength before →
      maskString src i (out ++ encode (part ++ cs))
        = maskString src j (out ++ encode part' ++ encode cs))
    (h : MasksString src (before ++ part) cs j) : MasksString src before (part ++ cs) i := by
  obtain ⟨body, masked, rest, stop, rfl, hcells', hsize', hmin, hmask'⟩ := h
  refine ⟨part ++ body, part' ++ masked, rest, stop, (List.append_assoc ..).symm, ?_, ?_, ?_, ?_⟩
  · rw [hcells, hcells', List.map_append, List.append_assoc]
  · rw [byteLength_append, byteLength_append, hsize, hsize']
  · rw [hmin, List.append_assoc]
  · intro out hout
    rw [hmask out hout, hmask', encode_append, List.append_assoc out]
    rw [List.length_append, hout, length_encode, hsize, byteLength_append]

/-- Every string is masked up to its end. -/
theorem masksString {cs before : List Char} {i : Nat} (hsrc : At src before cs)
    (hi : min i src.length = byteLength before) : MasksString src before cs i := by
  induction hn : cs.length using Nat.strong_induction_on generalizing cs before i with
  | _ n ih =>
  subst hn
  -- a part that does not end the string changes into one of the same size; the rest is shorter
  have hgo : ∀ part part' cs' j, cs = part ++ cs' → 0 < part.length →
      byteLength part' = byteLength part →
      min j src.length = byteLength (before ++ part) →
      stringCells (part ++ cs') = part'.map other ++ stringCells cs' →
      (∀ out : List UInt8, out.length = byteLength before →
        maskString src i (out ++ encode (part ++ cs'))
          = maskString src j (out ++ encode part' ++ encode cs')) →
      MasksString src before cs i := by
    rintro part part' cs' j rfl hpart hsize hj hcells hmask
    refine .extend part part' j hsize hcells hmask (ih cs'.length ?_ hsrc.append hj rfl)
    rw [List.length_append]
    omega
  cases cs with
  | nil =>
    have hend := hsrc.length_le_of_min hi
    -- the position may already be past the end, behind a backslash
    refine ⟨[], [], [], i + 1, rfl, rfl, rfl, by rw [List.append_nil]; omega, fun out _ => ?_⟩
    rw [maskString_end hend, encode_nil, List.append_nil, List.append_nil]
  | cons c cs =>
    obtain rfl := hsrc.eq_of_min hi
    by_cases hspecial : c ∈ ['\'', '\n', '\\', '"']
    · simp only [List.mem_cons, List.not_mem_nil, or_false] at hspecial
      rcases hspecial with rfl | rfl | rfl | rfl
      · -- the quote and the line break end the string
        exact ⟨['\''], ['"'], cs, _, rfl, by rw [stringCells]; rfl, rfl, hsrc.next.min_eq,
          fun out hout => maskString_quote hsrc hout⟩
      · refine ⟨['\n'], ['\n'], cs, _, rfl, by rw [stringCells]; rfl, rfl, hsrc.next.min_eq,
          fun out _ => ?_⟩
        rw [maskString_break hsrc, List.append_assoc, ← encode_append, List.singleton_append]
      · cases cs with
        | nil =>
          refine hgo ['\\'] ['\\'] [] (byteLength before + 2) rfl Nat.one_pos rfl ?_ rfl
            fun out _ => ?_
          · rw [hsrc.next.length_eq, byteLength_concat]
            exact Nat.min_eq_right (Nat.add_le_add_left (by decide) _)
          · rw [List.append_nil, maskString_escape_end hsrc, encode_nil, List.append_nil]
        | cons d cs =>
          refine hgo ['\\', d] ['\\', d] cs _ rfl Nat.two_pos rfl hsrc.next_next.min_eq rfl
            fun out _ => ?_
          rw [maskString_escape hsrc, List.append_assoc, ← encode_append]
      · exact hgo ['"'] ['\''] cs _ rfl Nat.one_pos rfl hsrc.next.min_eq rfl
          fun out hout => maskString_double hsrc hout
    · refine hgo [c] [c] cs _ rfl Nat.one_pos rfl hsrc.next.min_eq ?_ fun out _ => ?_
      · rw [List.singleton_append, stringCells]
        · rfl
        all_goals simp_all
      · rw [List.singleton_append, maskString_plain hsrc hspecial, List.append_assoc out,
          ← encode_append, List.singleton_append]

/-! ### Queries -/

/-- What becomes of a part of a query behind its stand-in. -/
def blanked (cs : List Char) : List Cell :=
  (cs.map other).flatMap Cell.blank

theorem blanked_singleton (c : Char) : blanked [c] = standIn [] c :=
  List.append_nil _

theorem blanked_append (cs ds : List Char) : blanked (cs ++ ds) = blanked cs ++ blanked ds := by
  rw [blanked, List.map_append, List.flatMap_append, ← blanked, ← blanked]

theorem encode_blanked (cs : List Char) :
    encode (cellChars (blanked cs)) = (encode cs).map blankByte := by
  rw [blanked, encode_flatMap_blank, cellChars_map_other]

/-- Blanking keeps the number of bytes. -/
theorem byteLength_blanked (cs : List Char) :
    byteLength (cellChars (blanked cs)) = byteLength cs := by
  rw [blanked, byteLength_flatMap_blank, cellChars_map_other]

/-- Nothing of a query is code any more. -/
theorem code_of_mem_blanked {cs : List Char} {cell : Cell} (h : cell ∈ blanked cs) :
    cell.code = false := by
  obtain ⟨before, hbefore, hcell⟩ := List.mem_flatMap.mp h
  obtain ⟨d, -, rfl⟩ := List.mem_map.mp hcell
  show before.code = false
  exact code_of_mem_map_other hbefore

/-- A scan passes over a part of `cs` that is blanked, and goes on behind it. -/
def Passes (src : List UInt8) (before cs : List Char) (cells : List Cell)
    (after : List Char → List Cell) (run : Edit Nat) : Prop :=
  ∃ body rest stop, cs = body ++ rest ∧ cells = blanked body ++ after rest ∧ run = .ok stop ∧
    min stop src.length = byteLength (before ++ body)

/-- A part that is blanked can be put before what a scan passes. -/
theorem Passes.extend (part : List Char) {before cs : List Char} {cells cells' : List Cell}
    {after : List Char → List Cell} {run run' : Edit Nat}
    (hcells : cells = blanked part ++ cells') (hrun : run = run')
    (h : Passes src (before ++ part) cs cells' after run') :
    Passes src before (part ++ cs) cells after run := by
  obtain ⟨body, rest, stop, rfl, rfl, rfl, hmin⟩ := h
  refine ⟨part ++ body, rest, stop, (List.append_assoc ..).symm, ?_, hrun, ?_⟩
  · rw [hcells, blanked_append, List.append_assoc]
  · rw [hmin, List.append_assoc]

section

variable {before cs : List Char} {c : Char}

theorem quoteTurn_high {j : Nat} {d : Char} (hread : read src j = .ok d) (hd : 128 ≤ d.toNat) :
    quoteTurn src j () = .ok (.yield (j + 1, ())) := by
  simp only [quoteTurn, hread, Edit.ok_bind, beq_high _ hd, Char.reduceToNat, Nat.reduceLT,
    Bool.false_eq_true, if_false, Edit.pure_eq]

/-- What a turn within a string of a query does, told by the character. -/
theorem quoteTurn_char (hsrc : At src before (c :: cs)) :
    quoteTurn src (byteLength before) () =
      if c == '\'' then .ok (.done (byteLength before, ()))
      else if c == '\\' then .ok (.yield (byteLength before + 2, ()))
      else .ok (.yield (byteLength before + 1, ())) := by
  simp only [quoteTurn, hsrc.read_eq, Edit.ok_bind, lead_beq, Char.reduceToNat, Nat.reduceLT,
    Edit.pure_eq]

theorem quoteEnd_congr {i j : Nat}
    (h : loop src.length (quoteTurn src) i () = loop src.length (quoteTurn src) j ()) :
    quoteEnd src i = quoteEnd src j := by
  rw [quoteEnd, h, quoteEnd]

/-- A string within a query is passed up to its end, and the query goes on behind it. -/
theorem quoteEnd_passes (depth : Nat) {i : Nat} (hsrc : At src before cs)
    (hi : min i src.length = byteLength before) :
    Passes src before cs (queryStringCells [] depth cs) (queryCells [] depth) (quoteEnd src i) := by
  induction hn : cs.length using Nat.strong_induction_on generalizing cs before i with
  | _ n ih =>
  subst hn
  cases cs with
  | nil =>
    have hend := hsrc.length_le_of_min hi
    -- the string and the query end with the text
    refine ⟨[], [], i + 1, rfl, by rw [queryStringCells, queryCells]; rfl, ?_, ?_⟩
    · rw [quoteEnd, loop_end hend]
      rfl
    · rw [List.append_nil]
      omega
  | cons c cs =>
    obtain rfl := hsrc.eq_of_min hi
    have hturn := quoteTurn_char hsrc
    by_cases hquote : c = '\''
    · subst hquote
      refine ⟨['\''], cs, _, rfl, ?_, ?_, hsrc.next.min_eq⟩
      · rw [queryStringCells, blanked_singleton]
        rfl
      · rw [quoteEnd, loop_done hsrc.lt_length hturn, byteLength_concat]
        rfl
    by_cases hescape : c = '\\'
    · subst hescape
      cases cs with
      | nil =>
        -- the backslash is the last byte, and the position after it is past the end
        have hend : src.length ≤ byteLength before + 2 := by
          rw [hsrc.length]
          exact Nat.add_le_add_left (by decide) _
        refine ⟨['\\'], [], byteLength before + 3, rfl, by rfl, ?_, ?_⟩
        · rw [quoteEnd, loop_yield hsrc.lt_length hturn (by omega), loop_end hend]
          rfl
        · rw [← hsrc.next.length_eq]
          omega
      | cons d cs =>
        have hskip := loop_escape hsrc (by decide) hsrc.next.size_le hturn
          fun _ _ => quoteTurn_high
        refine Passes.extend ['\\', d] ?_ (quoteEnd_congr hskip)
          (ih cs.length (by rw [List.length_cons, List.length_cons]; omega) hsrc.next_next ?_ rfl)
        · rw [queryStringCells, ← blanked_singleton, List.tail_nil, ← blanked_singleton,
            ← blanked_append]
          rfl
        · exact hsrc.next_next.min_eq
    · simp only [beq_iff_eq, hquote, hescape, if_false] at hturn
      have hskip := loop_char hsrc hsrc.size_le hturn fun _ _ => quoteTurn_high
      refine Passes.extend [c] ?_ (quoteEnd_congr hskip)
        (ih cs.length (Nat.lt_succ_self _) hsrc.next hsrc.next.min_eq rfl)
      rw [queryStringCells, blanked_singleton]
      · rfl
      all_goals simp_all

/-- A turn counts one bracket at most; a string is passed with the depth as it was. -/
theorem bracketTurn_countsByOne (src : List UInt8) : CountsByOne (bracketTurn src) := by
  intro j depth k depth' h
  rw [bracketTurn] at h
  cases hread : read src j with
  | error fault =>
    rw [hread] at h
    cases h
  | ok c =>
    rw [hread, Edit.ok_bind] at h
    -- an opening bracket, a closing one, a quote, or any other byte
    split at h
    · cases h
      omega
    · split at h
      · split at h
        · cases h
        · cases h
          omega
      · split at h
        · cases hquote : quoteEnd src (j + 1) with
          | error fault =>
            rw [hquote] at h
            cases h
          | ok stop =>
            rw [hquote] at h
            cases h
            omega
        · cases h
          omega

/-- The depth of brackets in a text of fewer than 2^31 bytes is what 32 bits hold of it. -/
theorem toInt_bracketDepth (hsize : src.length < 2147483648) {i j : Nat} {depth : Int}
    (h : Visits src.length (bracketTurn src) i 0 j depth) : (Int32.ofInt depth).toInt = depth :=
  h.toInt_ofInt (bracketTurn_countsByOne src) hsize

/-- A byte outside ASCII does not change the depth. -/
theorem bracketTurn_high (depth : Int) {j : Nat} {d : Char} (hread : read src j = .ok d)
    (hd : 128 ≤ d.toNat) : bracketTurn src j depth = .ok (.yield (j + 1, depth)) := by
  simp only [bracketTurn, hread, Edit.ok_bind, beq_high _ hd, Char.reduceToNat, Nat.reduceLT,
    Bool.false_eq_true, if_false, Edit.pure_eq]

/-- What a turn within a query does, told by the character. -/
theorem bracketTurn_char (hsrc : At src before (c :: cs)) (depth : Int) :
    bracketTurn src (byteLength before) depth =
      if c == '[' then .ok (.yield (byteLength before + 1, depth + 1))
      else if c == ']' then
        if depth - 1 = 0 then .ok (.done (byteLength before + 1, 0))
        else .ok (.yield (byteLength before + 1, depth - 1))
      else if c == '\'' then do
        let i ← quoteEnd src (byteLength before + 1)
        return .yield (i, depth)
      else .ok (.yield (byteLength before + 1, depth)) := by
  simp only [bracketTurn, hsrc.read_eq, Edit.ok_bind, lead_beq, Char.reduceToNat, Nat.reduceLT,
    Edit.pure_eq]

theorem queryEnd_congr {i j : Nat} {depth depth' : Int}
    (h : loop src.length (bracketTurn src) i depth = loop src.length (bracketTurn src) j depth') :
    queryEnd src i depth = queryEnd src j depth' := by
  rw [queryEnd, h, queryEnd]

/-- An opening bracket goes one deeper. -/
theorem queryEnd_open (hsrc : At src before ('[' :: cs)) (depth : Int) :
    queryEnd src (byteLength before) depth
      = queryEnd src (byteLength (before ++ ['['])) (depth + 1) :=
  queryEnd_congr (loop_char hsrc hsrc.size_le (bracketTurn_char hsrc depth)
    fun _ _ => bracketTurn_high _)

/-- The bracket that closes the query ends the scan. -/
theorem queryEnd_last (hsrc : At src before (']' :: cs)) :
    queryEnd src (byteLength before) 1 = .ok (byteLength (before ++ [']'])) := by
  rw [queryEnd, loop_done hsrc.lt_length (bracketTurn_char hsrc 1), byteLength_concat]
  rfl

/-- Any other closing bracket goes back up. -/
theorem queryEnd_close (hsrc : At src before (']' :: cs)) {depth : Int} (hdepth : depth ≠ 1) :
    queryEnd src (byteLength before) depth
      = queryEnd src (byteLength (before ++ [']'])) (depth - 1) := by
  apply queryEnd_congr
  apply loop_char hsrc hsrc.size_le _ fun _ _ => bracketTurn_high _
  rw [bracketTurn_char hsrc, if_neg (by decide), if_pos (by decide), if_neg (by omega)]

/-- A string is passed as one, so the brackets in it are not counted. -/
theorem queryEnd_quote (hsrc : At src before ('\'' :: cs)) (depth : Int) {stop : Nat}
    (hquote : quoteEnd src (byteLength (before ++ ['\''])) = .ok stop)
    (hstop : byteLength before < stop) :
    queryEnd src (byteLength before) depth = queryEnd src stop depth := by
  apply queryEnd_congr
  apply loop_yield hsrc.lt_length _ hstop
  rw [byteLength_concat] at hquote
  rw [bracketTurn_char hsrc, if_neg (by decide), if_neg (by decide), if_pos (by decide)]
  exact congrArg (· >>= fun i => pure (ForInStep.yield (i, depth))) hquote

theorem queryEnd_plain (hsrc : At src before (c :: cs)) (hc : c ∉ ['[', ']', '\''])
    (depth : Int) :
    queryEnd src (byteLength before) depth
      = queryEnd src (byteLength (before ++ [c])) depth := by
  apply queryEnd_congr
  apply loop_char hsrc hsrc.size_le _ fun _ _ => bracketTurn_high _
  simp only [List.mem_cons, List.not_mem_nil, or_false, not_or] at hc
  simp only [bracketTurn_char hsrc, beq_iff_eq, hc, if_false]

/-- A query is passed up to the bracket that closes it, and code follows. -/
theorem queryEnd_passes {depth i : Nat} (hdepth : 0 < depth) (hsrc : At src before cs)
    (hi : min i src.length = byteLength before) :
    Passes src before cs (queryCells [] depth cs) codeCells (queryEnd src i depth) := by
  induction hn : cs.length using Nat.strong_induction_on generalizing cs before i depth with
  | _ n ih =>
  subst hn
  cases cs with
  | nil =>
    have hend := hsrc.length_le_of_min hi
    -- nothing closes the query before the text ends
    refine ⟨[], [], i, rfl, by rw [queryCells, codeCells]; rfl, ?_, ?_⟩
    · rw [queryEnd, loop_end hend]
      rfl
    · rw [List.append_nil, hi]
  | cons c cs =>
    obtain rfl := hsrc.eq_of_min hi
    have hshort : cs.length < (c :: cs).length := Nat.lt_succ_self _
    by_cases hspecial : c ∈ ['[', ']', '\'']
    · simp only [List.mem_cons, List.not_mem_nil, or_false] at hspecial
      rcases hspecial with rfl | rfl | rfl
      · refine Passes.extend ['['] ?_ (queryEnd_open hsrc depth)
          (ih cs.length hshort (Nat.succ_pos depth) hsrc.next hsrc.next.min_eq rfl)
        rw [queryCells, blanked_singleton]
        rfl
      · by_cases hone : depth = 1
        · subst hone
          refine ⟨[']'], cs, _, rfl, ?_, queryEnd_last hsrc, hsrc.next.min_eq⟩
          rw [queryCells, blanked_singleton, if_pos (Nat.le_refl 1)]
        · have hpos : 0 < depth - 1 := by omega
          -- cells count the depth in natural numbers, the scan in integers
          have hcast : (depth : Int) - 1 = ((depth - 1 : Nat) : Int) := by omega
          have hne : (depth : Int) ≠ 1 := by omega
          have hclose := queryEnd_close hsrc hne
          rw [hcast] at hclose
          refine Passes.extend [']'] ?_ hclose
            (ih cs.length hshort hpos hsrc.next hsrc.next.min_eq rfl)
          rw [queryCells, blanked_singleton, if_neg (by omega)]
          rfl
      · obtain ⟨body, rest, stop, rfl, hcells, hstop, hmin⟩ :=
          quoteEnd_passes depth hsrc.next hsrc.next.min_eq
        -- the scan has to move on: a string has a quote at least
        have hbehind : byteLength before < stop := by
          rw [byteLength_append, byteLength_concat] at hmin
          have := Char.utf8Size_pos '\''
          omega
        have hrest := ih rest.length (by rw [List.length_cons, List.length_append]; omega) hdepth
          hsrc.next.append hmin rfl
        rw [← List.append_cons] at hrest
        refine Passes.extend ('\'' :: body) ?_ (queryEnd_quote hsrc depth hstop hbehind) hrest
        rw [queryCells, List.tail_nil, hcells, ← List.append_assoc]
        rfl
    · refine Passes.extend [c] ?_ (queryEnd_plain hsrc hspecial depth)
        (ih cs.length hshort hdepth hsrc.next hsrc.next.min_eq rfl)
      rw [queryCells, blanked_singleton]
      · rfl
      all_goals simp_all

end

/-! ### Where queries start -/

/-- A character that stands for itself within a query, in one byte. -/
def InQuery (c : Char) : Prop :=
  c.toNat < 128 ∧ c ∉ ['[', ']', '\'']

/-- Blanks stand for themselves. -/
theorem inQuery_of_whitespace {c : Char} (h : Text.isAsciiWhitespace c = true) : InQuery c := by
  simp only [Text.isAsciiWhitespace, Bool.or_eq_true, beq_iff_eq] at h
  rcases h with (((rfl | rfl) | rfl) | rfl) | rfl
  all_goals exact ⟨by decide, by decide⟩

/-- So do letters, in either case. -/
theorem inQuery_of_letter {c : Char} (h : Text.isAsciiLetter (Chars.asciiLower c) = true) :
    InQuery c := by
  have hletter : Text.isAsciiLetter c = true := by
    unfold Chars.asciiLower at h
    split at h
    · rename_i hupper
      rw [Text.isAsciiLetter, hupper, Bool.or_true]
    · exact h
  simp only [Text.isAsciiLetter, Bool.or_eq_true, Bool.and_eq_true, decide_eq_true_eq,
    Char.le_def, UInt32.le_iff_toNat_le] at hletter
  constructor
  · rcases hletter with h | h
    · exact Nat.lt_of_le_of_lt h.2 (by decide)
    · exact Nat.lt_of_le_of_lt h.2 (by decide)
  · intro hmem
    simp only [List.mem_cons, List.not_mem_nil, or_false] at hmem
    rcases hmem with rfl | rfl | rfl
    all_goals exact absurd hletter (by decide)

/-- The text after the bracket of a query starts with three characters that stand for themselves. -/
theorem startsQuery_head {cs : List Char} (h : startsQuery cs = true) :
    3 ≤ cs.length ∧ ∀ c ∈ cs.take 3, InQuery c := by
  generalize hws : cs.takeWhile Text.isAsciiWhitespace = blanks
  generalize hds : cs.dropWhile Text.isAsciiWhitespace = ds
  have hcs : blanks ++ ds = cs := by rw [← hws, ← hds, List.takeWhile_append_dropWhile]
  have hblanks : ∀ c ∈ blanks, InQuery c := by
    intro c hc
    rw [← hws] at hc
    exact inQuery_of_whitespace (List.mem_takeWhile_imp hc)
  -- both words that start a query are letters only, and longer than three
  have hword : ∃ word after, ds.map Chars.asciiLower = word ++ after ∧ 3 ≤ word.length ∧
      ∀ c ∈ word, Text.isAsciiLetter c = true := by
    unfold startsQuery at h
    simp only [hds, Chars.stripPrefix?] at h
    rcases Bool.or_eq_true_iff.mp h with h | h
    all_goals
      split at h
      · rename_i after hafter
        exact ⟨_, after, (List.isPrefixOf?_eq_some_iff_append_eq.mp hafter).symm, by decide,
          List.all_eq_true.mp (by decide)⟩
      · exact absurd h Bool.false_ne_true
  obtain ⟨word, after, hmap, hlength, hletters⟩ := hword
  have hlong : 3 ≤ ds.length := by
    have := congrArg List.length hmap
    rw [List.length_map, List.length_append] at this
    omega
  refine ⟨by rw [← hcs, List.length_append]; omega, ?_⟩
  intro c hc
  rw [← hcs, List.take_append] at hc
  rcases List.mem_append.mp hc with hc | hc
  · -- the character is one of the blanks before the word
    exact hblanks c (List.mem_of_mem_take hc)
  · -- or one of the first three letters of the word
    have hc : c ∈ ds.take 3 := (List.take_subset_take_left ds (Nat.sub_le ..)) hc
    have hlower : Chars.asciiLower c ∈ (ds.map Chars.asciiLower).take 3 := by
      rw [← List.map_take]
      exact List.mem_map_of_mem hc
    rw [hmap, List.take_append_of_le_length hlength] at hlower
    exact inQuery_of_letter (hletters _ (List.mem_of_mem_take hlower))

/-- Only characters of ASCII make up words. -/
theorem asciiOnly_wordByte : AsciiOnly isWordByte := by
  intro c hc
  have hletter : ∀ d : Char, d.toNat < 128 → ¬ (c ≤ d) := by
    intro d hd hle
    rw [Char.le_def, UInt32.le_iff_toNat_le] at hle
    exact absurd (Nat.le_trans hc hle) (Nat.not_le.mpr hd)
  simp only [isWordByte, Text.isAsciiLetter, Text.isAsciiDigit, beq_high _ hc, hletter,
    Char.reduceToNat, Nat.reduceLT, decide_false, Bool.and_false, Bool.or_self]

theorem stripPrefix?_cons (w c : Char) (word cs : List Char) :
    Chars.stripPrefix? (w :: word) (c :: cs)
      = if w == c then Chars.stripPrefix? word cs else none := rfl

/-- A word of ASCII is found among bytes as it is among characters. -/
theorem opens_latin {word : List Char} (hword : Ascii word) {n : Nat}
    (hn : word.length < n) (cs : List Char) :
    (word.isPrefixOf (((latin cs).take n).map Chars.asciiLower)
        && !((((latin cs).take n).map Chars.asciiLower)[word.length]?.map isWordByte).getD false)
      = match Chars.stripPrefix? word (cs.map Chars.asciiLower) with
        | some after => !((after.head?.map isWordByte).getD false)
        | none => false := by
  induction word generalizing n cs with
  | nil =>
    obtain ⟨n, rfl⟩ := Nat.exists_eq_succ_of_ne_zero (Nat.ne_of_gt hn)
    cases cs with
    | nil => rfl
    | cons c cs =>
      -- the word is over: what follows it has to be no part of a word
      have hc := test_lead (asciiOnly_lower asciiOnly_wordByte) c
      rw [latin_cons, List.take_succ_cons, List.map_cons]
      show (true && !isWordByte (Chars.asciiLower (Char.ofUInt8 (lead c))))
        = !isWordByte (Chars.asciiLower c)
      rw [Bool.true_and, hc]
  | cons w word ih =>
    obtain ⟨n, rfl⟩ := Nat.exists_eq_succ_of_ne_zero (Nat.ne_of_gt (Nat.zero_lt_of_lt hn))
    have hw := hword w (List.mem_cons_self ..)
    have hlower : AsciiOnly fun c => Chars.asciiLower c == w := asciiOnly_lower (asciiOnly_beq hw)
    cases cs with
    | nil => rfl
    | cons c cs =>
      cases hc : Chars.asciiLower c == w with
      | true =>
        -- a letter that agrees is of ASCII, so bytes and characters stay in step
        have hascii : c.toNat < 128 := ascii_of_test hlower hc
        have hrest := ih (fun d hd => hword d (List.mem_cons_of_mem _ hd))
          (Nat.lt_of_succ_lt_succ hn) cs
        rw [latin_cons_ascii hascii, List.take_succ_cons, List.map_cons, List.map_cons,
          beq_iff_eq.mp hc, List.isPrefixOf_cons_cons, beq_self_eq_true, Bool.true_and,
          List.length_cons, List.getElem?_cons_succ, hrest, stripPrefix?_cons, beq_self_eq_true]
        rfl
      | false =>
        have hlead := (test_lead hlower c).trans hc
        have hne : (w == Chars.asciiLower c) = false := by rw [BEq.comm, hc]
        have hne' : (w == Chars.asciiLower (Char.ofUInt8 (lead c))) = false := by
          rw [BEq.comm, hlead]
        rw [latin_cons, List.take_succ_cons, List.map_cons, List.map_cons,
          List.isPrefixOf_cons_cons, hne', Bool.false_and, Bool.false_and, stripPrefix?_cons, hne]
        rfl

/-- A query is recognised by its bytes exactly if it is by its characters. -/
theorem startsQueryBytes_encode (cs : List Char) :
    startsQueryBytes (encode cs) = startsQuery cs := by
  have hlatin : (encode cs).map Char.ofUInt8 = latin cs := rfl
  have hselect : Ascii "select".toList := by decide
  have hfind : Ascii "find".toList := by decide
  simp only [startsQueryBytes, startsQuery, hlatin, dropWhile_latin asciiOnly_whitespace]
  exact congrArg₂ or (opens_latin hselect (by decide) _) (opens_latin hfind (by decide) _)

end SourceAtlas.Extract.Apex.InPlace
