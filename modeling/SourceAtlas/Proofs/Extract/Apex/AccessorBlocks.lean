import SourceAtlas.Proofs.Extract.Apex.Layout

/-!
# Where blocks of accessors end

A block of accessors goes up to the brace that closes it. The brace is found by counting braces, and
those of strings and comments count as well, although a block opens in code only. So a text is
divided into blocks in two ways (`Divides`): counting every brace, as masking does
(`maskAccessors_eq_of_divides`), and counting those of code, which is how the blocks are meant.
`mask_accessors_iff` says exactly when the two come to the same text.

* **Closing.** `Closes` says by the number of braces that a part ends with the brace that closes the
  one before it. The depth that masking keeps is that difference (`maskAccessors_through`).
* **Dividing.** Every text is divided in one way (`exists_divides`, `Divides.unique`).
* **Comparing.** Outside blocks a cell stays, and a block starts with a semicolon. So where one
  division shows what the other one blanks, only blanks can stand (`isBlank_of_masked`,
  `isBlank_of_maskAccessors`), and a closing brace is none.
-/

namespace SourceAtlas.Extract.Apex

open InPlace

/-! ## Braces that count -/

/-- The number of opening braces that count. -/
def openings (counts : Cell → Bool) (cells : List Cell) : Nat :=
  cells.countP fun cell => counts cell && cell.char == '\x7b'

/-- The number of closing braces that count. -/
def closings (counts : Cell → Bool) (cells : List Cell) : Nat :=
  cells.countP fun cell => counts cell && cell.char == '\x7d'

/-- Every brace counts. -/
def everyBrace (_ : Cell) : Bool := true

/-- Some cells that end with the brace that closes the one before them. -/
structure Closes (counts : Cell → Bool) (part : List Cell) : Prop where
  closed : closings counts part = openings counts part + 1
  inside : ∀ front, front <+: part → front ≠ part →
    closings counts front ≤ openings counts front

/-- The prefixes are the first cells, so they can be gone through. -/
theorem closes_iff {counts : Cell → Bool} {part : List Cell} :
    Closes counts part ↔ closings counts part = openings counts part + 1 ∧
      ∀ n < part.length, closings counts (part.take n) ≤ openings counts (part.take n) := by
  constructor
  · refine fun h => ⟨h.closed, fun n hn => h.inside _ (List.take_prefix ..) fun heq => ?_⟩
    have hlength := congrArg List.length heq
    rw [List.length_take] at hlength
    omega
  · refine fun h => ⟨h.1, fun front hfront hne => ?_⟩
    rw [List.prefix_iff_eq_take.mp hfront]
    exact h.2 _ (lt_of_le_of_ne hfront.length_le fun heq => hne (hfront.eq_of_length heq))

instance (counts : Cell → Bool) (part : List Cell) : Decidable (Closes counts part) :=
  decidable_of_iff _ closes_iff.symm

section

variable {counts : Cell → Bool} {part front cells : List Cell}

theorem openings_append (counts : Cell → Bool) (cells rest : List Cell) :
    openings counts (cells ++ rest) = openings counts cells + openings counts rest :=
  List.countP_append

theorem closings_append (counts : Cell → Bool) (cells rest : List Cell) :
    closings counts (cells ++ rest) = closings counts cells + closings counts rest :=
  List.countP_append

/-- One cell closes one brace at most. -/
theorem closings_concat_le (counts : Cell → Bool) (cells : List Cell) (cell : Cell) :
    closings counts (cells ++ [cell]) ≤ closings counts cells + 1 := by
  rw [closings_append]
  exact Nat.add_le_add_left List.countP_le_length _

/-- And it takes no opening brace away. -/
theorem openings_le_concat (counts : Cell → Bool) (cells : List Cell) (cell : Cell) :
    openings counts cells ≤ openings counts (cells ++ [cell]) := by
  rw [openings_append]
  exact Nat.le_add_right _ _

/-- The last cell is the brace that closes. -/
theorem Closes.last {cell : Cell} (h : Closes counts (front ++ [cell])) : cell.char = '\x7d' := by
  have hfront := h.inside front (List.prefix_append _ _) (by simp)
  have hclosed := h.closed
  have hopen := openings_le_concat counts front cell
  have hone : closings counts [cell] ≠ 0 := by
    rw [closings_append] at hclosed
    omega
  have hcell : (counts cell && cell.char == '\x7d') = true := by
    simpa [closings, List.countP_eq_zero] using hone
  exact beq_iff_eq.mp (Bool.and_eq_true_iff.mp hcell).2

/-- A brace is closed at one place only. -/
theorem Closes.eq_of_prefix {part' : List Cell} (h : Closes counts part) (h' : Closes counts part')
    (hpart : part <+: cells) (hpart' : part' <+: cells) : part = part' := by
  -- of two parts the shorter one would lie within the other, where nothing closes
  have hshorter : ∀ {part part' : List Cell}, Closes counts part → Closes counts part' →
      part <+: part' → part = part' := by
    intro part part' h h' hpre
    by_contra hne
    have hle := h'.inside part hpre hne
    have hclosed := h.closed
    omega
  rcases List.prefix_or_prefix_of_prefix hpart hpart' with hpre | hpre
  · exact hshorter h h' hpre
  · exact (hshorter h' h hpre).symm

/-- Where nothing closes the brace before, no more braces are closed than are opened. -/
theorem closings_le (h : ∀ front, front <+: cells → ¬ Closes counts front)
    (hfront : front <+: cells) : closings counts front ≤ openings counts front := by
  induction hn : front.length using Nat.strong_induction_on generalizing front with
  | _ n ih =>
  subst hn
  have hshorter : ∀ shorter, shorter <+: front → shorter ≠ front →
      closings counts shorter ≤ openings counts shorter := by
    intro shorter hpre hne
    refine ih shorter.length (lt_of_le_of_ne hpre.length_le fun heq => ?_)
      (hpre.trans hfront) rfl
    exact hne (hpre.eq_of_length heq)
  by_contra hmore
  -- every shorter part has enough opening braces, so the last cell would be the one that closes
  rcases List.eq_nil_or_concat front with rfl | ⟨shorter, cell, rfl⟩
  · exact hmore (Nat.le_refl 0)
  · rw [List.concat_eq_append] at *
    have hle := hshorter shorter (List.prefix_append _ _) (by simp)
    have hclosings := closings_concat_le counts shorter cell
    have hopenings := openings_le_concat counts shorter cell
    exact h _ hfront ⟨by omega, hshorter⟩

end

/-! ## The depth that masking keeps -/

/-- The depth goes up with opening braces and down with closing ones. -/
theorem depthAfter_eq (depth : Nat) (cell : Cell) :
    depthAfter depth cell.char
      = depth + openings everyBrace [cell] - closings everyBrace [cell] := by
  rw [depthAfter, openings, closings, List.countP_singleton, List.countP_singleton]
  cases hopen : cell.char == '\x7b' with
  | true =>
    rw [beq_iff_eq.mp hopen]
    rfl
  | false =>
    cases hclose : cell.char == '\x7d' with
    | true => rfl
    | false => rfl

/-- As long as fewer braces are closed than are open, everything is blanked. -/
theorem maskAccessors_through {depth : Nat} {part : List Cell}
    (h : ∀ front, front <+: part → front ≠ part →
      closings everyBrace front < depth + openings everyBrace front) (rest : List Cell) :
    maskAccessors depth (part ++ rest)
      = part.flatMap Cell.blank
        ++ maskAccessors (depth + openings everyBrace part - closings everyBrace part) rest := by
  induction part generalizing depth with
  | nil => rfl
  | cons cell part ih =>
    have hdepth : 0 < depth := h [] (List.nil_prefix ..) (List.cons_ne_nil cell part).symm
    -- one cell closes one brace at most, so the depth never runs below zero
    have hone : closings everyBrace [cell] ≤ 1 := List.countP_le_length
    have hopen : ∀ cells, openings everyBrace (cell :: cells) = _ :=
      openings_append everyBrace [cell]
    have hclose : ∀ cells, closings everyBrace (cell :: cells) = _ :=
      closings_append everyBrace [cell]
    rw [List.cons_append, maskAccessors_inside hdepth, depthAfter_eq, ih, List.flatMap_cons,
      List.append_assoc, hopen part, hclose part]
    · congr 3
      omega
    · intro front hfront hne
      have hcons := h (cell :: front) (List.cons_prefix_cons.mpr ⟨rfl, hfront⟩)
        fun heq => hne (List.cons.inj heq).2
      rw [hopen front, hclose front] at hcons
      omega

section

variable {part : List Cell}

/-- A block is blanked up to the brace that closes it, whatever the braces in it are. -/
theorem maskAccessors_of_closes (h : Closes everyBrace part) (rest : List Cell) :
    maskAccessors 1 (part ++ rest) = part.flatMap Cell.blank ++ maskAccessors 0 rest := by
  rw [maskAccessors_through _ rest, h.closed, Nat.add_comm 1, Nat.sub_self]
  intro front hfront hne
  have hle := h.inside front hfront hne
  omega

/-- A block that is not closed is blanked as far as one looks. -/
theorem exists_maskAccessors_of_open (h : ∀ front, front <+: part → ¬ Closes everyBrace front)
    (rest : List Cell) :
    ∃ depth, maskAccessors 1 (part ++ rest)
      = part.flatMap Cell.blank ++ maskAccessors depth rest := by
  refine ⟨_, maskAccessors_through (fun front hfront _ => ?_) rest⟩
  have hle := closings_le h hfront
  omega

end

/-! ## The division of a text -/

/-- Whether the first cell opens a block of accessors. -/
def opensBlockAt : List Cell → Bool
  | [] => false
  | cell :: rest => cell.char == '\x7b' && cell.code && opensAccessors (cellChars (cell :: rest))

/-- A cell outside blocks of accessors, or a block with the brace that opens it. -/
inductive Piece where
  | keep (cell : Cell)
  | block (brace : Cell) (part : List Cell)

/-- The cells of a piece. -/
def Piece.cells : Piece → List Cell
  | keep cell => [cell]
  | block brace part => brace :: part

/-- What a piece is to become: a cell stays, and a block turns into a semicolon and blanks. -/
def Piece.masked : Piece → List Char
  | keep cell => [cell.char]
  | block _ part => ';' :: (cellChars part).flatMap blankChar

/--
The division of a text into cells that stay and blocks of accessors, each up to the brace that
closes it. The division ends before a block that no brace closes.
-/
inductive Divides (counts : Cell → Bool) : List Cell → List Piece → List Cell → Prop
  | done : Divides counts [] [] []
  | keep {cell : Cell} {rest tail : List Cell} {pieces : List Piece} :
      opensBlockAt (cell :: rest) = false → Divides counts rest pieces tail →
      Divides counts (cell :: rest) (.keep cell :: pieces) tail
  | block {brace : Cell} {part rest tail : List Cell} {pieces : List Piece} :
      opensBlockAt (brace :: (part ++ rest)) = true → Closes counts part →
      Divides counts rest pieces tail →
      Divides counts (brace :: (part ++ rest)) (.block brace part :: pieces) tail
  | unclosed {brace : Cell} {rest : List Cell} :
      opensBlockAt (brace :: rest) = true → (∀ part, part <+: rest → ¬ Closes counts part) →
      Divides counts (brace :: rest) [] (brace :: rest)

section

variable {counts : Cell → Bool} {cells tail tail' : List Cell} {pieces pieces' : List Piece}

/-- Every text is divided, up to a block that is not closed. -/
theorem exists_divides (counts : Cell → Bool) (cells : List Cell) :
    ∃ pieces tail, Divides counts cells pieces tail := by
  induction hn : cells.length using Nat.strong_induction_on generalizing cells with
  | _ n ih =>
  subst hn
  cases cells with
  | nil => exact ⟨_, _, .done⟩
  | cons cell rest =>
    cases hopens : opensBlockAt (cell :: rest) with
    | false =>
      obtain ⟨pieces, tail, hrest⟩ := ih rest.length (Nat.lt_succ_self _) rest rfl
      exact ⟨_, _, .keep hopens hrest⟩
    | true =>
      by_cases hcloses : ∃ part, part <+: rest ∧ Closes counts part
      · obtain ⟨part, ⟨after, rfl⟩, hpart⟩ := hcloses
        obtain ⟨pieces, tail, hafter⟩ :=
          ih after.length (by rw [List.length_cons, List.length_append]; omega) after rfl
        exact ⟨_, _, .block hopens hpart hafter⟩
      · exact ⟨_, _, .unclosed hopens fun part hpre hpart => hcloses ⟨part, hpre, hpart⟩⟩

/-- It is divided in one way. -/
theorem Divides.unique (h : Divides counts cells pieces tail)
    (h' : Divides counts cells pieces' tail') : pieces' = pieces ∧ tail' = tail := by
  induction h generalizing pieces' tail' with
  | done =>
    cases h'
    exact ⟨rfl, rfl⟩
  | keep hopens _ ih =>
    cases h' with
    | keep _ hrest' =>
      obtain ⟨rfl, rfl⟩ := ih hrest'
      exact ⟨rfl, rfl⟩
    | block hopens' => exact absurd (hopens.symm.trans hopens') (by decide)
    | unclosed hopens' => exact absurd (hopens.symm.trans hopens') (by decide)
  | @block brace part rest tail pieces hopens hpart _ ih =>
    generalize hcells : part ++ rest = cells at h'
    cases h' with
    | keep hopens' => exact absurd ((hcells ▸ hopens).symm.trans hopens') (by decide)
    | @block _ part' rest' _ _ _ hpart' hrest' =>
      -- both blocks start at the same brace, which is closed at one place only
      have heq := hpart.eq_of_prefix hpart' ⟨rest, hcells⟩ (List.prefix_append ..)
      subst heq
      obtain rfl := List.append_cancel_left hcells
      obtain ⟨rfl, rfl⟩ := ih hrest'
      exact ⟨rfl, rfl⟩
    | unclosed _ hnone => exact absurd hpart (hnone part ⟨rest, hcells⟩)
  | unclosed hopens hnone =>
    cases h' with
    | keep hopens' => exact absurd (hopens.symm.trans hopens') (by decide)
    | block _ hpart' => exact absurd hpart' (hnone _ (List.prefix_append ..))
    | unclosed => exact ⟨rfl, rfl⟩

/-- The pieces and what is left are the text. -/
theorem Divides.cells_eq (h : Divides counts cells pieces tail) :
    cells = pieces.flatMap Piece.cells ++ tail := by
  induction h with
  | done => rfl
  | keep _ _ ih => exact congrArg _ ih
  | block _ _ _ ih =>
    rw [ih, List.flatMap_cons, Piece.cells]
    simp only [List.cons_append, List.append_assoc]
  | unclosed => rfl

end

/-! ## Blanks -/

/-- Whether a character is left as it is when it is blanked. -/
def isBlank (c : Char) : Bool :=
  c == ' ' || c == '\n' || c == '\r'

/-- Blanks stay. -/
theorem blankChar_of_isBlank {c : Char} (h : isBlank c = true) : blankChar c = [c] := by
  rw [isBlank, Bool.or_eq_true, Bool.or_eq_true, beq_iff_eq, beq_iff_eq, beq_iff_eq] at h
  rcases h with (rfl | rfl) | rfl
  · rfl
  · rfl
  · rfl

/-- A character that is blanked and yet shown is a blank. -/
theorem isBlank_of_blankChar {c : Char} {cs ds : List Char} (h : c :: cs = blankChar c ++ ds) :
    isBlank c = true := by
  rw [blankChar] at h
  split at h
  · rename_i hbreak
    rw [isBlank, Bool.or_assoc, hbreak, Bool.or_true]
  · -- the first of the blanks in its place is the character itself
    obtain ⟨n, hn⟩ := Nat.exists_eq_succ_of_ne_zero (Nat.ne_of_gt c.utf8Size_pos)
    rw [hn, List.replicate_succ, List.cons_append] at h
    rw [(List.cons.inj h).1]
    rfl

/-- Cells are blanked by their characters. -/
theorem cellChars_flatMap_blank (cells : List Cell) :
    cellChars (cells.flatMap Cell.blank) = (cellChars cells).flatMap blankChar := by
  induction cells with
  | nil => rfl
  | cons cell cells ih =>
    have hblank : cellChars cell.blank = blankChar cell.char := by
      rw [cellChars, Cell.blank, List.map_map]
      exact List.map_id _
    rw [List.flatMap_cons, cellChars_append, ih, hblank, cellChars_cons, List.flatMap_cons]

/-- Blanking blanks changes nothing. -/
theorem flatMap_blankChar_of_isBlank {cells : List Cell}
    (h : ∀ cell ∈ cells, isBlank cell.char = true) :
    (cellChars cells).flatMap blankChar = cellChars cells := by
  induction cells with
  | nil => rfl
  | cons cell cells ih =>
    rw [List.forall_mem_cons] at h
    rw [cellChars_cons, List.flatMap_cons, blankChar_of_isBlank h.1, ih h.2]
    rfl

/-- A block ends with a brace, so there are no blanks at its end. -/
theorem Closes.eq_nil_of_isBlank {counts : Cell → Bool} {part more : List Cell}
    (h : Closes counts (part ++ more)) (hblank : ∀ cell ∈ more, isBlank cell.char = true) :
    more = [] := by
  rcases List.eq_nil_or_concat more with hnil | ⟨front, cell, rfl⟩
  · exact hnil
  · rw [List.concat_eq_append] at h hblank
    rw [← List.append_assoc] at h
    have hcell := hblank cell (by simp)
    rw [h.last] at hcell
    exact absurd hcell (by decide)

/-! ## The two ways to count -/

/-- What is left of a block that no brace closes. -/
def maskedTail : List Cell → List Char
  | [] => []
  | brace :: rest => (Piece.block brace rest).masked

/--
A block ends alike in both ways to count: either the brace of code that closes it closes it when all
braces count too, or then none of the divided text does, and all that follows is blank anyway.
-/
def EndsAlike (part : List Cell) (after : List Piece) : Prop :=
  Closes everyBrace part ∨
    (∀ front, front <+: part ++ after.flatMap Piece.cells → ¬ Closes everyBrace front) ∧
      ∀ cell ∈ after.flatMap Piece.cells, isBlank cell.char = true

section

variable {counts : Cell → Bool} {cells part more rest tail : List Cell} {pieces : List Piece}

/-- A block opens with a brace. -/
theorem char_of_opensBlockAt {cell : Cell} (h : opensBlockAt (cell :: rest) = true) :
    cell.char = '\x7b' := by
  rw [opensBlockAt, Bool.and_eq_true, Bool.and_eq_true, beq_iff_eq] at h
  exact h.1.1

/-- The blocks of a division start with braces. -/
theorem Divides.char_brace (h : Divides counts cells pieces tail) {brace : Cell}
    (hmem : .block brace part ∈ pieces) : brace.char = '\x7b' := by
  induction h with
  | done => cases hmem
  | keep _ _ ih =>
    rcases List.mem_cons.mp hmem with heq | hmem
    · cases heq
    · exact ih hmem
  | block hopens _ _ ih =>
    rcases List.mem_cons.mp hmem with heq | hmem
    · cases heq
      exact char_of_opensBlockAt hopens
    · exact ih hmem
  | unclosed => cases hmem

/-- Masking is the division in which all braces count. -/
theorem maskAccessors_eq_of_divides (h : Divides everyBrace cells pieces tail) :
    cellChars (maskAccessors 0 cells) = pieces.flatMap Piece.masked ++ maskedTail tail := by
  induction h with
  | done => rfl
  | keep hopens _ ih =>
    rw [maskAccessors_keep hopens, cellChars_cons, ih]
    rfl
  | block hopens hpart _ ih =>
    rw [maskAccessors_block hopens, maskAccessors_of_closes hpart, cellChars_cons,
      cellChars_append, ih, cellChars_flatMap_blank, List.flatMap_cons, Piece.masked,
      List.append_assoc]
    rfl
  | @unclosed brace rest hopens hnone =>
    obtain ⟨depth, hrest⟩ := exists_maskAccessors_of_open hnone []
    rw [List.append_nil] at hrest
    rw [maskAccessors_block hopens, hrest, cellChars_cons, cellChars_append,
      cellChars_flatMap_blank]
    exact congrArg _ (List.append_nil _)

/-- What the pieces show and masking blanks is blank: the brace of a block shows a semicolon. -/
theorem isBlank_of_masked (h : Divides counts cells pieces tail) {cs : List Char}
    (hmore : more <+: pieces.flatMap Piece.cells)
    (hmasked : pieces.flatMap Piece.masked <+: (cellChars more).flatMap blankChar ++ cs) :
    ∀ cell ∈ more, isBlank cell.char = true := by
  have hbrace : ∀ brace part, .block brace part ∈ pieces → brace.char = '\x7b' :=
    fun _ _ => h.char_brace
  clear h
  induction pieces generalizing more with
  | nil => simp_all
  | cons piece pieces ih =>
    cases more with
    | nil => exact fun _ h => nomatch h
    | cons cell more =>
      rw [cellChars_cons, List.flatMap_cons, List.flatMap_cons, List.append_assoc] at hmasked
      rw [List.flatMap_cons] at hmore
      cases piece with
      | keep kept =>
        -- a cell that stays is shown, so it is a blank if it is blanked as well
        obtain ⟨rfl, hmore'⟩ := List.cons_prefix_cons.mp hmore
        obtain ⟨ds, hds⟩ := hmasked
        have hcell := isBlank_of_blankChar (by rw [← hds]; rfl)
        rw [blankChar_of_isBlank hcell] at hds
        have hrest := ih hmore' ⟨ds, (List.cons.inj hds).2⟩
          fun brace part hmem => hbrace brace part (List.mem_cons_of_mem _ hmem)
        exact List.forall_mem_cons.mpr ⟨hcell, hrest⟩
      | block brace part =>
        obtain ⟨rfl, -⟩ := List.cons_prefix_cons.mp hmore
        rw [hbrace _ _ (List.mem_cons_self ..)] at hmasked
        exact absurd (List.cons_prefix_cons.mp hmasked).1 (by decide)

/-- What masking shows and is to be blanked is blank. -/
theorem isBlank_of_maskAccessors
    (h : (cellChars more).flatMap blankChar <+: cellChars (maskAccessors 0 (more ++ rest))) :
    ∀ cell ∈ more, isBlank cell.char = true := by
  induction more with
  | nil => exact fun _ h => nomatch h
  | cons cell more ih =>
    rw [cellChars_cons, List.flatMap_cons, List.cons_append] at h
    cases hopens : opensBlockAt (cell :: (more ++ rest)) with
    | false =>
      rw [maskAccessors_keep hopens, cellChars_cons] at h
      obtain ⟨ds, hds⟩ := h
      rw [List.append_assoc] at hds
      have hcell := isBlank_of_blankChar hds.symm
      rw [blankChar_of_isBlank hcell] at hds
      exact List.forall_mem_cons.mpr ⟨hcell, ih ⟨ds, (List.cons.inj hds).2⟩⟩
    | true =>
      rw [maskAccessors_block hopens, char_of_opensBlockAt hopens, cellChars_cons] at h
      have hblank : ' ' = ';' := (List.cons_prefix_cons.mp h).1
      exact absurd hblank (by decide)

/-- A block that is masked as it is meant to be ends alike. -/
theorem endsAlike_of_masked (hpart : Closes Cell.code part)
    (hrest : Divides Cell.code rest pieces tail)
    (h : (cellChars part).flatMap blankChar ++ pieces.flatMap Piece.masked
      <+: cellChars (maskAccessors 1 (part ++ rest))) : EndsAlike part pieces := by
  have hcells := hrest.cells_eq
  by_cases hcloses : ∃ front, front <+: part ++ pieces.flatMap Piece.cells ∧
      Closes everyBrace front
  · left
    obtain ⟨front, hfront, hcloses⟩ := hcloses
    rcases List.prefix_or_prefix_of_prefix hfront (List.prefix_append ..) with hlt | hgt
    · -- masking ends before the block does, so the rest of the block is shown
      obtain ⟨more, rfl⟩ := hlt
      rw [List.append_assoc, maskAccessors_of_closes hcloses, cellChars_append,
        cellChars_append, cellChars_flatMap_blank, List.flatMap_append, List.append_assoc,
        List.prefix_append_right_inj] at h
      rw [hpart.eq_nil_of_isBlank (isBlank_of_maskAccessors ((List.prefix_append ..).trans h)),
        List.append_nil]
      exact hcloses
    · -- masking goes on behind the block, which is shown
      obtain ⟨more, rfl⟩ := hgt
      rw [List.prefix_append_right_inj] at hfront
      have hmore := hfront
      obtain ⟨after, hafter⟩ := hfront
      rw [hcells, ← hafter, List.append_assoc, ← List.append_assoc,
        maskAccessors_of_closes hcloses, cellChars_append, cellChars_flatMap_blank,
        cellChars_append, List.flatMap_append, List.append_assoc, List.prefix_append_right_inj] at h
      have hblank := isBlank_of_masked hrest hmore h
      rw [hcloses.eq_nil_of_isBlank hblank, List.append_nil] at hcloses
      exact hcloses
  · right
    have hnone : ∀ front, front <+: part ++ pieces.flatMap Piece.cells →
        ¬ Closes everyBrace front :=
      fun front hfront hclosed => hcloses ⟨front, hfront, hclosed⟩
    obtain ⟨depth, hmask⟩ := exists_maskAccessors_of_open hnone tail
    rw [List.append_assoc, ← hcells] at hmask
    rw [hmask, cellChars_append, cellChars_flatMap_blank, cellChars_append, List.flatMap_append,
      List.append_assoc, List.prefix_append_right_inj] at h
    exact ⟨hnone, isBlank_of_masked hrest (List.prefix_refl _) h⟩

/-- The brace of a block is not blank, so there is no block among pieces that are. -/
theorem Divides.not_mem_block (h : Divides counts cells pieces tail) {brace : Cell}
    (hblank : ∀ cell ∈ pieces.flatMap Piece.cells, isBlank cell.char = true) :
    .block brace part ∉ pieces := by
  intro hmem
  have hcell := hblank brace (List.mem_flatMap.mpr ⟨_, hmem, List.mem_cons_self ..⟩)
  rw [h.char_brace hmem] at hcell
  exact absurd hcell (by decide)

/-- Blank pieces are masked by blanking them. -/
theorem Divides.masked_of_isBlank (h : Divides counts cells pieces tail)
    (hblank : ∀ cell ∈ pieces.flatMap Piece.cells, isBlank cell.char = true) :
    pieces.flatMap Piece.masked = (cellChars (pieces.flatMap Piece.cells)).flatMap blankChar := by
  rw [flatMap_blankChar_of_isBlank hblank]
  have hblocks : ∀ brace part, .block brace part ∉ pieces := fun _ _ => h.not_mem_block hblank
  clear h hblank
  induction pieces with
  | nil => rfl
  | cons piece pieces ih =>
    have hpieces := ih fun brace part hmem => hblocks brace part (List.mem_cons_of_mem _ hmem)
    cases piece with
    | keep cell =>
      rw [List.flatMap_cons, List.flatMap_cons, cellChars_append, hpieces]
      rfl
    | block brace part => exact absurd (List.mem_cons_self ..) (hblocks brace part)

/-- The blocks of code are masked as they are meant to be exactly where all of them end alike. -/
theorem masked_prefix_iff (h : Divides Cell.code cells pieces tail) :
    pieces.flatMap Piece.masked <+: cellChars (maskAccessors 0 cells) ↔
      ∀ brace part after, .block brace part :: after <:+ pieces → EndsAlike part after := by
  induction h with
  | done => simp
  | keep hopens _ ih =>
    rw [maskAccessors_keep hopens, cellChars_cons, List.flatMap_cons]
    simp only [Piece.masked, List.singleton_append, List.cons_prefix_cons, true_and, ih,
      List.suffix_cons_iff, List.cons.injEq, reduceCtorEq, false_and, false_or]
  | @block brace part rest tail pieces hopens hpart hrest ih =>
    have hmasked : (Piece.block brace part :: pieces).flatMap Piece.masked
        = ';' :: ((cellChars part).flatMap blankChar ++ pieces.flatMap Piece.masked) := rfl
    rw [hmasked, maskAccessors_block hopens, cellChars_cons, List.cons_prefix_cons,
      and_iff_right rfl]
    constructor
    -- masked as meant: this block ends alike, and so do those behind it
    · intro h brace' part' after hsuffix
      have hends := endsAlike_of_masked hpart hrest h
      rcases List.suffix_cons_iff.mp hsuffix with heq | hsuffix
      · cases heq
        exact hends
      · rcases hends with hcloses | ⟨-, hblank⟩
        · rw [maskAccessors_of_closes hcloses, cellChars_append, cellChars_flatMap_blank,
            List.prefix_append_right_inj] at h
          exact ih.mp h _ _ _ hsuffix
        · exact absurd (hsuffix.subset (List.mem_cons_self ..)) (hrest.not_mem_block hblank)
    · intro h
      rcases h _ _ _ (List.suffix_refl _) with hcloses | ⟨hnone, hblank⟩
      · rw [maskAccessors_of_closes hcloses, cellChars_append, cellChars_flatMap_blank,
          List.prefix_append_right_inj]
        exact ih.mpr fun brace part after hsuffix =>
          h brace part after (List.suffix_cons_iff.mpr (.inr hsuffix))
      -- nothing closes the block, and what follows is blank in both ways
      · obtain ⟨depth, hmask⟩ := exists_maskAccessors_of_open hnone tail
        rw [List.append_assoc, ← hrest.cells_eq] at hmask
        rw [hmask, cellChars_append, cellChars_flatMap_blank, cellChars_append,
          List.flatMap_append, hrest.masked_of_isBlank hblank]
        exact List.prefix_append ..
  | unclosed => simp

end

/-! ## Whole texts -/

/-- The cells when only the blocks of accessors are left to be masked. -/
def withoutHeader (text : String) : List Cell :=
  let cells := maskedWords text.toList
  (triggerHeader? cells).elim cells fun h => blankRange h.start h.stop 0 cells

/-- Blocks of accessors are masked last. -/
theorem mask_eq_maskAccessors (text : String) :
    (mask text).1.toList = cellChars (maskAccessors 0 (withoutHeader text)) := by
  rw [mask, String.toList_ofList]
  rfl

/--
**A block of accessors goes up to the brace that closes it when all braces count.** Masking turns it
into a semicolon and blanks, with the braces of strings and comments counted as well; a block that
is not closed goes to the end, and all other cells stay. By braces of code the text has one division
into blocks, and masking keeps to that one exactly where all its blocks end alike in both ways to
count.
-/
theorem mask_accessors_iff (text : String) :
    (∃ pieces tail, Divides everyBrace (withoutHeader text) pieces tail ∧
        (mask text).1.toList = pieces.flatMap Piece.masked ++ maskedTail tail) ∧
      ∃ pieces tail, Divides Cell.code (withoutHeader text) pieces tail ∧
        (∀ pieces' tail', Divides Cell.code (withoutHeader text) pieces' tail' →
          pieces' = pieces ∧ tail' = tail) ∧
        (pieces.flatMap Piece.masked <+: (mask text).1.toList ↔
          ∀ brace part after, .block brace part :: after <:+ pieces → EndsAlike part after) := by
  rw [mask_eq_maskAccessors]
  constructor
  · obtain ⟨pieces, tail, hevery⟩ := exists_divides everyBrace (withoutHeader text)
    exact ⟨pieces, tail, hevery, maskAccessors_eq_of_divides hevery⟩
  · obtain ⟨pieces, tail, hcode⟩ := exists_divides Cell.code (withoutHeader text)
    exact ⟨pieces, tail, hcode, fun _ _ => hcode.unique, masked_prefix_iff hcode⟩

/-- A pair of braces in a string does no harm. -/
theorem mask_accessors_iff_bracePair :
    ∃ pieces, Divides Cell.code (withoutHeader "o\x7bget\x7breturn '\x7b\x7d';\x7d\x7d") pieces [] ∧
      pieces.flatMap Piece.masked
        <+: (mask "o\x7bget\x7breturn '\x7b\x7d';\x7d\x7d").1.toList := by
  obtain ⟨-, pieces, tail, -, hunique, hiff⟩ :=
    mask_accessors_iff "o\x7bget\x7breturn '\x7b\x7d';\x7d\x7d"
  have hcells : withoutHeader "o\x7bget\x7breturn '\x7b\x7d';\x7d\x7d"
      = plain 'o' :: plain '\x7b'
        :: (codeCells "get\x7breturn '\x7b\x7d';\x7d\x7d".toList ++ []) := by
    decide +kernel
  have hdivides : Divides Cell.code (withoutHeader "o\x7bget\x7breturn '\x7b\x7d';\x7d\x7d")
      [.keep (plain 'o'),
        .block (plain '\x7b') (codeCells "get\x7breturn '\x7b\x7d';\x7d\x7d".toList)] [] := by
    rw [hcells]
    exact .keep (by decide +kernel) (.block (by decide +kernel) (by decide +kernel) .done)
  obtain ⟨rfl, rfl⟩ := hunique _ _ hdivides
  refine ⟨_, hdivides, hiff.mpr fun brace part after hsuffix => .inl ?_⟩
  have hmem := hsuffix.subset (List.mem_cons_self ..)
  simp only [List.mem_cons, reduceCtorEq, Piece.block.injEq, List.not_mem_nil, false_or,
    or_false] at hmem
  rw [hmem.2]
  decide +kernel

/-- A single brace in a string does: the block goes on to the end, and what follows it is lost. -/
theorem mask_braceInString :
    (mask "o\x7bget\x7breturn '\x7b';\x7d\x7dx").1.toList = 'o' :: ';' :: List.replicate 18 ' ' ∧
      ∃ pieces, Divides Cell.code (withoutHeader "o\x7bget\x7breturn '\x7b';\x7d\x7dx") pieces [] ∧
        pieces.flatMap Piece.masked = 'o' :: ';' :: List.replicate 17 ' ' ++ ['x'] := by
  have hcells : withoutHeader "o\x7bget\x7breturn '\x7b';\x7d\x7dx"
      = plain 'o' :: plain '\x7b'
        :: (codeCells "get\x7breturn '\x7b';\x7d\x7d".toList ++ [plain 'x']) := by
    decide +kernel
  refine ⟨by decide +kernel, [.keep (plain 'o'),
    .block (plain '\x7b') (codeCells "get\x7breturn '\x7b';\x7d\x7d".toList), .keep (plain 'x')],
    ?_, by decide +kernel⟩
  rw [hcells]
  exact .keep (by decide +kernel) (.block (by decide +kernel) (by decide +kernel)
    (.keep (by decide +kernel) .done))

end SourceAtlas.Extract.Apex
