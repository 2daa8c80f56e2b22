import SourceAtlas.Proofs.Extract.Apex.Patterns

/-!
# Blocks of accessors

A turn looks for an accessor in a window of bytes, which may end within a character. What is left of
that character reads as a replacement, and no accessor is told by it (`startsAccessor_concat`). A
block goes up to the brace that closes it, whatever it holds (`exists_blockEnd`).
-/

namespace SourceAtlas.Extract.Apex.InPlace

open Buffer Utf8
open Chars (byteLength byteLength_nil byteLength_cons byteLength_append byteLength_concat)

/-! ### A text that is cut within a character -/

section

variable {cs : List Char}

/-- A replacement is no letter of an ASCII word. -/
theorem matchesLetter_replacement {l : Char} (hl : l.toNat < 128) :
    matchesLetter l replacement = false := by
  have hlower : (Chars.asciiLower replacement == l) = false := by
    rw [asciiLower_high (by decide)]
    exact beq_high hl (by decide)
  rw [matchesLetter, hlower, Bool.false_or, Bool.or_eq_false_iff]
  exact ⟨Bool.and_false _, Bool.and_false _⟩

/-- So it is no part of a word, and follows one if anything does. -/
theorem afterWord?_concat {ls : List Char} (hls : Ascii ls) :
    afterWord? ls (cs ++ [replacement]) = (afterWord? ls cs).map (· ++ [replacement]) := by
  induction ls generalizing cs with
  | nil => rfl
  | cons l ls ih =>
    have hl := matchesLetter_replacement (hls l (List.mem_cons_self ..))
    cases cs with
    | nil =>
      have hnone : afterWord? (l :: ls) [replacement] = none := by
        rw [afterWord?, hl]
        rfl
      exact hnone
    | cons c cs =>
      rw [List.cons_append, afterWord?, afterWord?,
        ih fun x hx => hls x (List.mem_cons_of_mem _ hx)]
      split
      · rfl
      · rfl

/-- The same for several words. -/
theorem afterAnyWord?_concat {words : List String} (hwords : ∀ word ∈ words, Ascii word.toList) :
    afterAnyWord? words (cs ++ [replacement])
      = (afterAnyWord? words cs).map (· ++ [replacement]) := by
  induction words with
  | nil => rfl
  | cons word words ih =>
    rw [List.forall_mem_cons] at hwords
    have hword : afterWord? word.toList (cs ++ [replacement]) = _ := afterWord?_concat hwords.1
    have hrest := ih hwords.2
    rw [afterAnyWord?] at hrest ⊢
    rw [afterAnyWord?] at hrest ⊢
    rw [List.findSome?_cons, List.findSome?_cons, hword]
    cases afterWord? word.toList cs with
    | some rest => rfl
    | none => exact hrest

/-- A replacement is no blank. -/
theorem dropWhile_concat :
    (cs ++ [replacement]).dropWhile Text.isWhitespace
      = cs.dropWhile Text.isWhitespace ++ [replacement] := by
  rw [List.dropWhile_append]
  split
  · rename_i hempty
    rw [List.isEmpty_iff.mp hempty]
    decide
  · rfl

/-- So it is not among the blanks that are asked for. -/
theorem afterBlanks?_concat :
    afterBlanks? (cs ++ [replacement]) = (afterBlanks? cs).map (· ++ [replacement]) := by
  cases cs with
  | nil => decide
  | cons c cs =>
    rw [List.cons_append, afterBlanks?, afterBlanks?, dropWhile_concat]
    split
    · rfl
    · rfl

/-- Whether a text starts with an accessor, without a modifier before it. -/
def accessor (cs : List Char) : Bool :=
  match afterAnyWord? ["get", "set"] cs with
  | some rest =>
    match rest.dropWhile Text.isWhitespace with
    | c :: _ => c == ';' || c == '\x7b'
    | [] => false
  | none => false

/-- An accessor may have a modifier before it. -/
theorem startsAccessor_eq (cs : List Char) :
    startsAccessor cs =
      ((((afterAnyWord? ["public", "private", "protected", "global"]
          (cs.dropWhile Text.isWhitespace)).bind afterBlanks?).map accessor).getD false
        || accessor (cs.dropWhile Text.isWhitespace)) :=
  rfl

/-- An accessor is told by a semicolon or a brace, and a replacement is neither. -/
theorem accessor_concat : accessor (cs ++ [replacement]) = accessor cs := by
  rw [accessor, accessor, afterAnyWord?_concat (by decide)]
  cases afterAnyWord? ["get", "set"] cs with
  | none => rfl
  | some rest =>
    dsimp only [Option.map_some]
    rw [dropWhile_concat]
    cases rest.dropWhile Text.isWhitespace with
    | nil => decide
    | cons c rest => rfl

/-- An accessor that is cut off within a character is no other one. -/
theorem startsAccessor_concat : startsAccessor (cs ++ [replacement]) = startsAccessor cs := by
  rw [startsAccessor_eq, startsAccessor_eq, dropWhile_concat, accessor_concat,
    afterAnyWord?_concat (by decide)]
  congr 1
  cases afterAnyWord? ["public", "private", "protected", "global"]
      (cs.dropWhile Text.isWhitespace) with
  | none => rfl
  | some rest =>
    rw [Option.map_some, Option.bind_some, Option.bind_some, afterBlanks?_concat]
    cases afterBlanks? rest with
    | none => rfl
    | some rest => exact accessor_concat

end

/-- The first bytes of a text are those of its window, and at most part of one more character. -/
theorem decode_take (n : Nat) (cs : List Char) :
    decode ((encode cs).take n) = window n cs ∨
      decode ((encode cs).take n) = window n cs ++ [replacement] := by
  induction cs generalizing n with
  | nil => exact .inl (by rw [encode_nil, List.take_nil, decode_nil, window])
  | cons c cs ih =>
    have hsize := String.length_utf8EncodeChar c
    rw [encode_cons, List.take_append, hsize, window]
    by_cases hn : c.utf8Size ≤ n
    · rw [List.take_of_length_le (by omega), decode_encodeChar_append, if_pos hn]
      rcases ih (n - c.utf8Size) with h | h
      · exact .inl (by rw [h])
      · exact .inr (by rw [h, List.cons_append])
    · -- the character does not fit: nothing of it is seen, or its first bytes
      rw [if_neg hn, show n - c.utf8Size = 0 by omega, List.take_zero, List.append_nil]
      cases n with
      | zero => exact .inl decode_nil
      | succ n =>
        right
        have hcut := (List.take_append_drop (n + 1) (String.utf8EncodeChar c)).symm
        rw [decode_cut hcut, List.nil_append]
        · apply List.ne_nil_of_length_pos
          rw [List.length_take]
          omega
        · apply List.ne_nil_of_length_pos
          rw [List.length_drop]
          omega

/-- What a turn reads of the window tells the same as the characters of the window. -/
theorem opensBlock_decode {cs : List Char} :
    opensBlock (decode ((encode ('\x7b' :: cs)).take accessorWindow))
      = opensAccessors ('\x7b' :: cs) := by
  -- the brace takes one byte of the window
  have hwindow : window accessorWindow ('\x7b' :: cs) = '\x7b' :: window 63 cs := rfl
  rw [opensAccessors, hwindow]
  rcases decode_take accessorWindow ('\x7b' :: cs) with h | h
  · rw [h, hwindow]
    rfl
  · rw [h, hwindow, List.cons_append, opensBlock, startsAccessor_concat]

/-! ### The end of a block -/

/-- The number of braces open after a character. -/
def depthAfter (depth : Nat) (c : Char) : Nat :=
  if c == '\x7b' then depth + 1 else if c == '\x7d' then depth - 1 else depth

/-- Only a closing brace can close the last block that is open. -/
theorem eq_of_depthAfter {depth : Nat} {c : Char} (hdepth : 0 < depth)
    (h : depthAfter depth c = 0) : c = '\x7d' := by
  rw [depthAfter] at h
  split at h
  · cases h
  · split at h
    · rename_i hc
      exact beq_iff_eq.mp hc
    · omega

/-- Within a block every cell is blanked. -/
theorem maskAccessors_inside {depth : Nat} (hdepth : 0 < depth) (cell : Cell) (rest : List Cell) :
    maskAccessors depth (cell :: rest)
      = cell.blank ++ maskAccessors (depthAfter depth cell.char) rest := by
  have hne : (depth == 0) = false := by
    rw [beq_eq_false_iff_ne]
    omega
  rw [maskAccessors, hne]
  rfl

section

variable {bytes : List UInt8} {done : List Char}

/-- A turn counts one brace at most. -/
theorem braceTurn_countsByOne (bytes : List UInt8) : CountsByOne (braceTurn bytes) := by
  intro j depth k depth' h
  rw [braceTurn] at h
  cases hread : read bytes j with
  | error fault =>
    rw [hread] at h
    cases h
  | ok c =>
    rw [hread, Edit.ok_bind] at h
    -- an opening brace, a closing one that may be the last, or neither
    split at h
    · cases h
      omega
    · split at h
      · split at h
        · cases h
        · cases h
          omega
      · cases h
        omega

/-- The depth of braces in a text of fewer than 2^31 bytes is what 32 bits hold of it. -/
theorem toInt_braceDepth (hsize : bytes.length < 2147483648) {i j : Nat} {depth : Int}
    (h : Visits bytes.length (braceTurn bytes) i 0 j depth) : (Int32.ofInt depth).toInt = depth :=
  h.toInt_ofInt (braceTurn_countsByOne bytes) hsize

/-- A turn within a character does nothing. -/
theorem braceTurn_high {j : Nat} {d : Char} {depth : Int} (hread : read bytes j = .ok d)
    (hd : 128 ≤ d.toNat) : braceTurn bytes j depth = .ok (.yield (j + 1, depth)) := by
  rw [braceTurn, hread, Edit.ok_bind, beq_high (by decide) hd, beq_high (by decide) hd]
  rfl

/-- A turn counts braces as the cells do, and stops when none is open. -/
theorem braceTurn_eq {c : Char} {cs : List Char} (hbytes : At bytes done (c :: cs)) {depth : Nat}
    (hdepth : 0 < depth) :
    braceTurn bytes (byteLength done) depth
      = .ok (if depthAfter depth c = 0 then .done (byteLength done + 1, 0)
          else .yield (byteLength done + 1, (depthAfter depth c : Int))) := by
  rw [braceTurn, hbytes.read_eq, Edit.ok_bind, lead_beq (by decide), lead_beq (by decide),
    depthAfter]
  cases hopen : c == '\x7b' with
  | true => rfl
  | false =>
    cases hclose : c == '\x7d' with
    | true =>
      by_cases hone : depth = 1
      · subst hone
        rfl
      -- a depth is never negative, so it can be counted in natural numbers
      · have hleft : (depth : Int) - 1 = ((depth - 1 : Nat) : Int) := by omega
        have hint : ¬ ((depth - 1 : Nat) : Int) = 0 := by omega
        have hnat : ¬ depth - 1 = 0 := by omega
        simp only [Bool.false_eq_true, if_false, if_true, if_neg hint, if_neg hnat, hleft]
        rfl
    | false =>
      have hnat : ¬ depth = 0 := by omega
      simp only [Bool.false_eq_true, if_false, if_neg hnat]
      rfl

/-- A block is blanked up to the brace that closes it, or to the end. -/
theorem exists_blockEnd {cells : List Cell} {depth : Nat} (hdepth : 0 < depth)
    (hbytes : At bytes done (cellChars cells)) :
    ∃ part rest left, cells = part ++ rest ∧
      maskAccessors depth cells = part.flatMap Cell.blank ++ maskAccessors 0 rest ∧
      loop bytes.length (braceTurn bytes) (byteLength done) (depth : Int)
        = .ok (byteLength (done ++ cellChars part), left) := by
  induction cells generalizing done depth with
  | nil =>
    refine ⟨[], [], depth, rfl, rfl, ?_⟩
    rw [cellChars_nil, List.append_nil, loop_end (Nat.le_of_eq hbytes.length_eq)]
  | cons cell cells ih =>
    rw [cellChars_cons] at hbytes
    have hturn := braceTurn_eq hbytes hdepth
    have hmask := maskAccessors_inside hdepth cell cells
    split at hturn
    · -- the brace that closes the block
      rename_i hzero
      have hclose := eq_of_depthAfter hdepth hzero
      rw [hzero] at hmask
      refine ⟨[cell], cells, 0, rfl, ?_, ?_⟩
      · rw [hmask, List.flatMap_singleton]
      · rw [loop_done hbytes.lt_length hturn, cellChars_cons, cellChars_nil, byteLength_concat,
          hclose]
        rfl
    · -- the block goes on
      rename_i hopen
      obtain ⟨part, rest, left, rfl, hrest, hloop⟩ := ih (Nat.pos_of_ne_zero hopen) hbytes.next
      refine ⟨cell :: part, rest, left, rfl, ?_, ?_⟩
      · rw [hmask, hrest, List.flatMap_cons, List.append_assoc]
      · rw [cellChars_cons, List.append_cons, ← hloop]
        exact loop_char hbytes hbytes.size_le hturn fun _ _ => braceTurn_high

/-! ### One turn -/

variable {spans : List Span}

/-- A turn within a character does nothing here either. -/
theorem accessorTurn_high {j : Nat} {d : Char} (hread : read bytes j = .ok d)
    (hd : 128 ≤ d.toNat) : accessorTurn spans j bytes = .ok (.yield (j + 1, bytes)) := by
  rw [accessorTurn, hread, Edit.ok_bind, bne, beq_high (by decide) hd]
  rfl

/-- What a turn sees of the buffer. -/
theorem slice_window {cs : List Char} (hbytes : At bytes done cs) (n : Nat) :
    slice bytes (byteLength done) (min (byteLength done + n) bytes.length)
      = .ok ((encode cs).take n) := by
  have hlength := hbytes.length
  have hle : byteLength done ≤ min (byteLength done + n) bytes.length := by omega
  -- the window ends with the text, if that is shorter
  rw [slice, decide_eq_true hle, decide_eq_true (Nat.min_le_right ..), Bool.and_self, if_pos rfl,
    List.drop_take, hbytes.drop_eq, List.take_eq_take_min, length_encode,
    List.take_eq_take_min (i := n), length_encode]
  congr 2
  omega

variable {c : Char} {cs : List Char}

/-- A turn at anything but the brace of a block of accessors leaves the buffer as it is. -/
theorem accessorTurn_keep (hbytes : At bytes done (c :: cs))
    (h : (c == '\x7b' && inSpans spans (byteLength done) && opensAccessors (c :: cs)) = false) :
    accessorTurn spans (byteLength done) bytes = .ok (.yield (byteLength done + 1, bytes)) := by
  rw [accessorTurn, hbytes.read_eq, Edit.ok_bind, bne, lead_beq (by decide)]
  cases hopen : c == '\x7b' with
  | false => rfl
  | true =>
    cases hspans : inSpans spans (byteLength done) with
    | false => rfl
    | true =>
      rw [beq_iff_eq] at hopen
      subst hopen
      have hopens : opensAccessors ('\x7b' :: cs) = false := by
        simpa only [hspans, beq_self_eq_true, Bool.true_and] using h
      rw [slice_window hbytes, Edit.ok_bind, opensBlock_decode, hopens]
      rfl

/-- At such a brace the block is blanked up to its end, and a semicolon is put in its place. -/
theorem accessorTurn_open {left : Int} {stop : Nat} (hbytes : At bytes done ('\x7b' :: cs))
    (hspans : inSpans spans (byteLength done) = true)
    (hopens : opensAccessors ('\x7b' :: cs) = true)
    (hloop : loop bytes.length (braceTurn bytes) (byteLength done) 0 = .ok (stop, left))
    {blanked edited : List UInt8} (hblank : blank bytes (byteLength done) stop = .ok blanked)
    (hput : put blanked (byteLength done) ';' = .ok edited) :
    accessorTurn spans (byteLength done) bytes = .ok (.yield (stop, edited)) := by
  rw [accessorTurn, hbytes.read_eq, Edit.ok_bind, bne, lead_beq (by decide), hspans,
    slice_window hbytes]
  simp only [Edit.ok_bind, opensBlock_decode, hopens, hloop, hblank, hput]
  rfl

/-- A block in the buffer is blanked to its end, with a semicolon in place of its first brace. -/
theorem accessorTurn_block {cell : Cell} {rest : List Cell} (hcell : cell.char = '\x7b')
    (hbytes : At bytes done (cellChars (cell :: rest)))
    (hspans : inSpans spans (byteLength done) = true)
    (hopens : opensAccessors (cellChars (cell :: rest)) = true) :
    ∃ part tail, rest = part ++ tail ∧
      maskAccessors 1 rest = part.flatMap Cell.blank ++ maskAccessors 0 tail ∧
      accessorTurn spans (byteLength done) bytes
        = .ok (.yield (byteLength done + byteLength (cellChars (cell :: part)),
            encode (done ++ ';' :: cellChars (part.flatMap Cell.blank))
              ++ encode (cellChars tail))) := by
  have hbrace : At bytes done ('\x7b' :: cellChars rest) := by
    rw [← hcell]
    exact hbytes
  obtain ⟨part, tail, left, rfl, hmask, hloop⟩ := exists_blockEnd Nat.one_pos hbrace.next
  refine ⟨part, tail, rfl, hmask, ?_⟩
  have hend : byteLength (done ++ ['\x7b'] ++ cellChars part)
      = byteLength done + byteLength (cellChars (cell :: part)) := by
    rw [List.append_assoc, List.singleton_append, byteLength_append, cellChars_cons, hcell]
  -- the first brace opens one block, from where the end is looked for
  have hopen : braceTurn bytes (byteLength done) 0
      = .ok (.yield (byteLength done + 1, ((1 : Nat) : Int))) := by
    rw [braceTurn, hbrace.read_eq]
    rfl
  -- it is blanked with the rest, before the semicolon is written
  have hblanks : (cell :: part).flatMap Cell.blank
      = ⟨' ', cell.code⟩ :: part.flatMap Cell.blank := by
    rw [List.flatMap_cons, Cell.blank, hcell]
    rfl
  rw [← List.cons_append, cellChars_append] at hbytes
  have hblank := blank_at hbytes.split (length_encode done).symm rfl
  rw [length_encode, length_encode, ← encode_flatMap_blank, hblanks] at hblank
  have hbraces : loop bytes.length (braceTurn bytes) (byteLength done) 0
      = .ok (byteLength done + byteLength (cellChars (cell :: part)), left) := by
    rw [loop_char hbrace hbrace.size_le hopen fun _ _ => braceTurn_high, hloop, hend]
  have hput : put (encode done ++ encode (' ' :: (cellChars (part.flatMap Cell.blank)
      ++ cellChars tail))) (byteLength done) ';' = _ :=
    put_char (by decide) (by decide) (length_encode done).symm
  apply accessorTurn_open hbrace hspans (by rw [← hcell]; exact hopens) hbraces hblank
  simp only [cellChars_cons, encode_append, encode_cons, List.append_assoc] at hput ⊢
  exact hput

end

/-! ### The whole buffer -/

/-- Outside a block a cell stays. -/
theorem maskAccessors_keep {cell : Cell} {rest : List Cell}
    (h : (cell.char == '\x7b' && cell.code && opensAccessors (cellChars (cell :: rest))) = false) :
    maskAccessors 0 (cell :: rest) = cell :: maskAccessors 0 rest := by
  rw [maskAccessors, h]
  rfl

/-- A block of accessors starts with a semicolon. -/
theorem maskAccessors_block {cell : Cell} {rest : List Cell}
    (h : (cell.char == '\x7b' && cell.code && opensAccessors (cellChars (cell :: rest))) = true) :
    maskAccessors 0 (cell :: rest) = ⟨';', cell.code⟩ :: maskAccessors 1 rest := by
  rw [maskAccessors, h]
  rfl

/-- Blocks of accessors are masked in the buffer as in the cells. -/
theorem loop_accessors {content bytes : List UInt8} {spans : List Span} {done : List Char}
    {cells : List Cell} (hbytes : At bytes done (cellChars cells))
    (hmarks : Grounded content spans (byteLength done) cells) :
    loop bytes.length (accessorTurn spans) (byteLength done) bytes
      = .ok (bytes.length, encode done ++ encode (cellChars (maskAccessors 0 cells))) := by
  -- on the number of cells, since a turn may take a whole block
  induction hn : cells.length using Nat.strong_induction_on generalizing cells done bytes with
  | _ n ih =>
  subst hn
  cases cells with
  | nil =>
    rw [loop_end (Nat.le_of_eq hbytes.length_eq), hbytes.length_eq]
    exact congrArg _ (congrArg _ hbytes)
  | cons cell rest =>
    -- for a brace, being code and standing in a span are the same
    have hcode : (cell.char == '\x7b' && inSpans spans (byteLength done))
        = (cell.char == '\x7b' && cell.code) := by
      cases hcell : cell.char == '\x7b' with
      | false => rfl
      | true =>
        rw [(hmarks.1.marked (not_mem_unmarked (t := (· == '\x7b')) (by decide) hcell)).1]
    cases hblock :
      cell.char == '\x7b' && cell.code && opensAccessors (cellChars (cell :: rest)) with
    | false =>
      rw [cellChars_cons] at hbytes
      have hturn := accessorTurn_keep hbytes (by rw [hcode]; exact hblock)
      have hnext := ih rest.length (Nat.lt_succ_self _) hbytes.next
        (by rw [byteLength_concat]; exact hmarks.2) rfl
      rw [loop_char hbytes hbytes.size_le hturn fun _ _ => accessorTurn_high, hnext,
        maskAccessors_keep hblock, cellChars_cons]
      simp only [encode_append, encode_cons, encode_nil, List.append_nil, List.append_assoc]
    | true =>
      -- the turn goes to the end of the block, and the buffer keeps its length
      have hmask := maskAccessors_block hblock
      rw [← hcode, Bool.and_eq_true, Bool.and_eq_true, beq_iff_eq] at hblock
      obtain ⟨⟨hcell, hspans⟩, hopens⟩ := hblock
      obtain ⟨part, tail, rfl, hblanks, hturn⟩ := accessorTurn_block hcell hbytes hspans hopens
      rw [← List.cons_append] at hbytes hmarks
      rw [cellChars_append] at hbytes
      rw [grounded_append] at hmarks
      generalize hdone' : done ++ ';' :: cellChars (part.flatMap Cell.blank) = done' at hturn
      have hsize : byteLength done' = byteLength done + byteLength (cellChars (cell :: part)) := by
        rw [← hdone', byteLength_append, byteLength_cons, byteLength_flatMap_blank, cellChars_cons,
          byteLength_cons, hcell]
        rfl
      have hlength : (encode done' ++ encode (cellChars tail)).length = bytes.length := by
        rw [hbytes.split, List.length_append, List.length_append, List.length_append, length_encode,
          length_encode, length_encode, length_encode, hsize]
      have hnext := ih tail.length (by rw [List.length_cons, List.length_append]; omega)
        (show At (encode done' ++ encode (cellChars tail)) done' (cellChars tail) from rfl)
        (hsize ▸ hmarks.2) rfl
      have hpos := cell.char.utf8Size_pos
      rw [hlength, hsize] at hnext
      rw [loop_yield _ hturn _, hnext, hmask, hblanks, ← hdone', cellChars_cons, cellChars_append]
      · simp only [encode_append, encode_cons, List.append_assoc]
      · exact hbytes.lt_length
      · rw [cellChars_cons, byteLength_cons]
        omega

/-- Blocks of accessors in the whole buffer. -/
theorem editAccessors_eq {content : List UInt8} {spans : List Span} {cells : List Cell}
    (hmarks : Grounded content spans 0 cells) :
    editAccessors spans (encode (cellChars cells))
      = .ok (encode (cellChars (maskAccessors 0 cells))) := by
  have hloop := loop_accessors (show At (encode (cellChars cells)) [] (cellChars cells) from rfl)
    hmarks
  rw [byteLength_nil] at hloop
  rw [editAccessors, hloop]
  rfl

/-- A masked block takes as many bytes as it had. -/
theorem byteLength_maskAccessors (depth : Nat) (cells : List Cell) :
    byteLength (cellChars (maskAccessors depth cells)) = byteLength (cellChars cells) := by
  induction cells generalizing depth with
  | nil => rfl
  | cons cell rest ih =>
    rw [cellChars_cons, byteLength_cons, maskAccessors]
    split
    · split
      · rename_i hblock
        rw [Bool.and_eq_true, Bool.and_eq_true, beq_iff_eq] at hblock
        rw [cellChars_cons, byteLength_cons, ih, hblock.1.1]
        rfl
      · rw [cellChars_cons, byteLength_cons, ih]
    · rw [cellChars_append, byteLength_append, byteLength_blank, ih]

end SourceAtlas.Extract.Apex.InPlace
