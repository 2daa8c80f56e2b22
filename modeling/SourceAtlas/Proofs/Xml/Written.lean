import Mathlib.Data.List.DropRight
import SourceAtlas.Proofs.Xml.Content

/-!
# Element trees as texts

Every element tree with proper names and plain text has a text (`Content.write`), and the events of
that text are those of the tree (`events_write`). The text is read piece by piece: a tag ends at the
first `>` outside quotes (`splitTag_tag`), its attributes are read back in order
(`attributesFrom_write`), and each piece is followed by what is still to be read, with fuel left for
it (`Content.Reads`, with one lemma for each kind of piece).
-/

namespace SourceAtlas.Xml

/-! ## Proper names and attributes -/

/-- Whether a character is no mark of the markup. -/
def isNameChar (c : Char) : Bool :=
  !isBlank c && c != '<' && c != '>' && c != '/' && c != '=' && c != '"' && c != '\'' && c != '!'
    && c != '?' && c != '&'

/-- Whether a name has a character, and none that is a mark. -/
def isName (name : String) : Bool :=
  !name.toList.isEmpty && name.toList.all isNameChar

/-- Whether a name is proper, and a value has no quotes in it and no blanks around it. -/
def isAttribute (key value : String) : Bool :=
  isName key && value.toList.all (· != '"') && Text.trim value == value

/-- Whether attributes are proper, and none of them has the name of another one. -/
def areAttributes : List (String × String) → Bool
  | [] => true
  | (key, value) :: rest =>
    isAttribute key value && !(rest.map Prod.fst).contains key && areAttributes rest

/-- The text of attributes, each with a blank before it and its value in double quotes. -/
def writeAttributes : List (String × String) → List Char
  | [] => []
  | (key, value) :: rest =>
    ' ' :: (key.toList ++ '=' :: '"' :: (value.toList ++ '"' :: writeAttributes rest))

namespace Content

/-- The text of some contents. -/
def write : Content → List Char
  | nil => []
  | text run after => run.toList ++ after.write
  | closed name attributes after =>
    '<' :: (name.toList ++ writeAttributes attributes ++ '/' :: '>' :: after.write)
  | element name attributes inside after =>
    '<' :: (name.toList ++ writeAttributes attributes ++ '>' ::
      (inside.write ++ '<' :: '/' :: (name.toList ++ '>' :: after.write)))

/-- Whether some contents start with a run of text. -/
def startsWithText : Content → Bool
  | text .. => true
  | _ => false

/-- Whether names and attributes are proper, and text has no marks in it and is not divided. -/
def isWellFormed : Content → Bool
  | nil => true
  | text run after =>
    run.toList.all (fun c => c != '<' && c != '&') && !after.startsWithText && after.isWellFormed
  | closed name attributes after =>
    isName name && areAttributes attributes && after.isWellFormed
  | element name attributes inside after =>
    isName name && areAttributes attributes && inside.isWellFormed && after.isWellFormed

end Content

theorem isAttribute_iff {key value : String} :
    isAttribute key value = true ↔
      isName key = true ∧ (∀ c ∈ value.toList, c ≠ '"') ∧ Text.trim value = value := by
  simp [isAttribute, and_assoc]

theorem areAttributes_cons {key value : String} {attributes : List (String × String)} :
    areAttributes ((key, value) :: attributes) = true ↔
      isAttribute key value = true ∧ key ∉ attributes.map Prod.fst ∧
        areAttributes attributes = true := by
  simp [areAttributes, and_assoc]

section

variable {name : String} {attributes : List (String × String)} {cs rest : List Char} {c : Char}

/-- A proper name has a first character. -/
theorem exists_cons_of_isName (h : isName name = true) :
    ∃ first more, name.toList = first :: more ∧ isNameChar first = true ∧
      ∀ c ∈ more, isNameChar c = true := by
  rw [isName, Bool.and_eq_true, List.all_eq_true] at h
  cases hname : name.toList with
  | nil => simp [hname] at h
  | cons first more =>
    rw [hname, List.forall_mem_cons] at h
    exact ⟨first, more, rfl, h.2⟩

theorem mem_isName (h : isName name = true) : ∀ c ∈ name.toList, isNameChar c = true := by
  rw [isName, Bool.and_eq_true, List.all_eq_true] at h
  exact h.2

/-- What a character of a name is not. -/
theorem of_isNameChar (h : isNameChar c = true) :
    isBlank c = false ∧ c ≠ '<' ∧ c ≠ '>' ∧ c ≠ '/' ∧ c ≠ '=' ∧ c ≠ '"' ∧ c ≠ '\'' ∧ c ≠ '!' ∧
      c ≠ '?' ∧ c ≠ '&' := by
  simpa [isNameChar, and_assoc] using h

/-- A name neither ends a tag nor starts a quotation. -/
theorem plain_of_isName (h : isName name = true) :
    ∀ c ∈ name.toList, c ≠ '>' ∧ c ≠ '"' ∧ c ≠ '\'' := by
  intro c hc
  obtain ⟨-, -, hend, -, -, hdouble, hsingle, -⟩ := of_isNameChar (mem_isName h c hc)
  exact ⟨hend, hdouble, hsingle⟩

/-! ## Reading attributes -/

/-- A written attribute is read, if its name is new. -/
theorem nextAttribute_write {key value : String} {seen : List (List Char)}
    (h : isAttribute key value = true) (hseen : key.toList ∉ seen) (rest : List Char) :
    nextAttribute seen (' ' :: (key.toList ++ '=' :: '"' :: (value.toList ++ '"' :: rest)))
      = .attribute key.toList value.toList rest := by
  obtain ⟨hname, hquoted, -⟩ := isAttribute_iff.mp h
  obtain ⟨first, more, hkey, hfirst, hmore⟩ := exists_cons_of_isName hname
  have hblank := (of_isNameChar hfirst).1
  have hpart : ∀ c ∈ more, (c != '=' && !isBlank c) = true := by
    intro c hc
    obtain ⟨hc, -, -, -, heq, -⟩ := of_isNameChar (hmore c hc)
    simp [hc, heq]
  have hvalue : ∀ c ∈ value.toList, (c != '"') = true := by
    intro c hc
    simpa using hquoted c hc
  rw [hkey] at hseen ⊢
  -- the one blank before the name is dropped
  have hdrop : ∀ cs, (' ' :: (first :: more ++ cs)).dropWhile isBlank = first :: (more ++ cs) := by
    intro cs
    rw [List.dropWhile_cons_of_pos rfl, List.cons_append,
      List.dropWhile_cons_of_neg (by simp [hblank])]
  have hcontains : seen.contains (first :: more) = false := by simpa using hseen
  rw [nextAttribute, hdrop]
  dsimp only
  rw [List.takeWhile_append_of_pos hpart, List.dropWhile_append_of_pos hpart,
    List.takeWhile_cons_of_neg (by decide), List.dropWhile_cons_of_neg (by decide),
    List.dropWhile_cons_of_neg (by decide), List.append_nil]
  -- the key has ended at the equals sign, and the value starts with the quote that ends it
  split
  · rename_i heq
    obtain rfl := (List.cons.inj heq).2
    rw [hcontains, if_neg Bool.false_ne_true, List.dropWhile_cons_of_neg (by decide)]
    dsimp only
    rw [if_pos (by decide), List.dropWhile_append_of_pos hvalue,
      List.takeWhile_append_of_pos hvalue, List.dropWhile_cons_of_neg (by decide),
      List.takeWhile_cons_of_neg (by decide), List.append_nil]
  · rename_i heq
    cases heq
  · rename_i hne _
    exact absurd rfl (hne _)

/-- Written attributes are read back, in order and all of them. -/
theorem attributesFrom_write {attributes : List (String × String)}
    (h : areAttributes attributes = true) {seen : List (List Char)} {fuel : Nat}
    (hseen : ∀ key value, (key, value) ∈ attributes → key.toList ∉ seen)
    (hfuel : (writeAttributes attributes).length < fuel) :
    attributesFrom fuel seen (writeAttributes attributes) = attributes := by
  induction attributes generalizing seen fuel with
  | nil =>
    cases fuel with
    | zero => rfl
    | succ fuel => rfl
  | cons first attributes ih =>
    obtain ⟨key, value⟩ := first
    obtain ⟨hfirst, hother, hrest⟩ := areAttributes_cons.mp h
    cases fuel with
    | zero => cases hfuel
    | succ fuel =>
      rw [writeAttributes, attributesFrom,
        nextAttribute_write hfirst (hseen key value (List.mem_cons_self ..))]
      dsimp only
      rw [String.ofList_toList, String.ofList_toList, (isAttribute_iff.mp hfirst).2.2, ih hrest]
      · -- the key that was read now counts as seen, and no later one is the same
        intro key' value' hmem
        rw [List.mem_cons, not_or]
        refine ⟨fun heq => hother ?_, hseen key' value' (List.mem_cons_of_mem _ hmem)⟩
        exact List.mem_map.mpr ⟨_, hmem, String.toList_inj.mp heq⟩
      · -- each attribute takes more than one character, so the fuel lasts
        rw [writeAttributes, List.length_cons, List.length_append] at hfuel
        simp only [List.length_cons, List.length_append] at hfuel
        omega

/-! ## Reading tags -/

/-- Characters outside quotes are passed. -/
theorem splitTag_plain (h : ∀ c ∈ cs, c ≠ '>' ∧ c ≠ '"' ∧ c ≠ '\'') (rest : List Char) :
    splitTag none (cs ++ rest) = (splitTag none rest).map (Prod.map (cs ++ ·) id) := by
  induction cs with
  | nil => exact Option.map_id'.symm
  | cons c cs ih =>
    rw [List.forall_mem_cons] at h
    obtain ⟨⟨hend, hdouble, hsingle⟩, hcs⟩ := h
    rw [List.cons_append, splitTag]
    simp only [beq_eq_false_iff_ne.mpr hend, beq_eq_false_iff_ne.mpr hdouble,
      beq_eq_false_iff_ne.mpr hsingle, Bool.or_false, Bool.false_eq_true, if_false]
    rw [ih hcs, Option.map_map]
    rfl

/-- A quotation is passed up to its closing quote, whatever marks stand in it. -/
theorem splitTag_quoted (h : ∀ c ∈ cs, c ≠ '"') (rest : List Char) :
    splitTag (some '"') (cs ++ '"' :: rest)
      = (splitTag none rest).map (Prod.map (cs ++ '"' :: ·) id) := by
  induction cs with
  | nil => rfl
  | cons c cs ih =>
    rw [List.forall_mem_cons] at h
    rw [List.cons_append, splitTag]
    simp only [beq_eq_false_iff_ne.mpr h.1, Bool.false_eq_true, if_false]
    rw [ih h.2, Option.map_map]
    rfl

/-- Attributes end no tag. -/
theorem splitTag_attributes (h : areAttributes attributes = true) (rest : List Char) :
    splitTag none (writeAttributes attributes ++ rest)
      = (splitTag none rest).map (Prod.map (writeAttributes attributes ++ ·) id) := by
  induction attributes with
  | nil => exact Option.map_id'.symm
  | cons first attributes ih =>
    obtain ⟨key, value⟩ := first
    obtain ⟨hfirst, -, hrest⟩ := areAttributes_cons.mp h
    obtain ⟨hname, hquoted, -⟩ := isAttribute_iff.mp hfirst
    -- nothing up to the first quote is in quotes
    have hkey : ∀ c ∈ ' ' :: (key.toList ++ ['=']), c ≠ '>' ∧ c ≠ '"' ∧ c ≠ '\'' := by
      intro c hc
      rw [List.mem_cons, List.mem_append, List.mem_singleton] at hc
      rcases hc with rfl | hc | rfl
      · decide
      · exact plain_of_isName hname c hc
      · decide
    have hopen : ∀ cs, splitTag none ('"' :: cs)
        = (splitTag (some '"') cs).map (Prod.map ('"' :: ·) id) := fun _ => rfl
    have hwrite : ∀ cs, writeAttributes ((key, value) :: attributes) ++ cs
        = (' ' :: (key.toList ++ ['=']))
          ++ '"' :: (value.toList ++ '"' :: (writeAttributes attributes ++ cs)) := by
      intro cs
      simp [writeAttributes]
    rw [hwrite, splitTag_plain hkey, hopen, splitTag_quoted hquoted, ih hrest]
    simp only [Option.map_map, hwrite]
    rfl

/-- A written tag is cut at its end. -/
theorem splitTag_tag (hname : isName name = true) (h : areAttributes attributes = true)
    {close : List Char} (hclose : ∀ c ∈ close, c = '/') (rest : List Char) :
    splitTag none (name.toList ++ writeAttributes attributes ++ close ++ '>' :: rest)
      = some (name.toList ++ writeAttributes attributes ++ close, rest) := by
  -- a tag may be closed by a slash, which ends nothing
  have hslash : ∀ c ∈ close, c ≠ '>' ∧ c ≠ '"' ∧ c ≠ '\'' := by
    intro c hc
    rw [hclose c hc]
    decide
  have hend : splitTag none ('>' :: rest) = some ([], rest) := rfl
  rw [List.append_assoc, List.append_assoc, splitTag_plain (plain_of_isName hname),
    splitTag_attributes h, splitTag_plain hslash, hend]
  simp

/-! ## The event of a tag -/

theorem stripSuffix?_slash (cs : List Char) : Chars.stripSuffix? ['/'] (cs ++ ['/']) = some cs := by
  simp [Chars.stripSuffix?, List.isSuffixOf?, List.isPrefixOf?]

theorem stripSuffix?_eq_none (h : c ≠ '/') : Chars.stripSuffix? ['/'] (cs ++ [c]) = none := by
  simp [Chars.stripSuffix?, List.isSuffixOf?, List.isPrefixOf?, h.symm]

/-- Attributes end with a quote. -/
theorem exists_writeAttributes_concat (h : attributes ≠ []) :
    ∃ front, writeAttributes attributes = front ++ ['"'] := by
  induction attributes with
  | nil => exact absurd rfl h
  | cons first attributes ih =>
    obtain ⟨key, value⟩ := first
    cases attributes with
    | nil => exact ⟨' ' :: (key.toList ++ '=' :: '"' :: value.toList), by simp [writeAttributes]⟩
    | cons second attributes =>
      obtain ⟨front, hfront⟩ := ih (List.cons_ne_nil second attributes)
      rw [writeAttributes, hfront]
      exact ⟨' ' :: (key.toList ++ '=' :: '"' :: (value.toList ++ '"' :: front)), by simp⟩

/-- The text of a start tag does not end with a slash. -/
theorem stripSuffix?_tag (hname : isName name = true) :
    Chars.stripSuffix? ['/'] (name.toList ++ writeAttributes attributes) = none := by
  by_cases hnil : attributes = []
  · -- without attributes the tag ends with its name
    subst hnil
    obtain ⟨first, more, hcons, -, -⟩ := exists_cons_of_isName hname
    have hne : name.toList ≠ [] := by simp [hcons]
    obtain ⟨front, last, hlast⟩ := (List.eq_nil_or_concat name.toList).resolve_left hne
    rw [List.concat_eq_append] at hlast
    have hchar := of_isNameChar (mem_isName hname last (by simp [hlast]))
    rw [writeAttributes, List.append_nil, hlast]
    exact stripSuffix?_eq_none hchar.2.2.2.1
  · obtain ⟨front, hfront⟩ := exists_writeAttributes_concat hnil
    rw [hfront, ← List.append_assoc]
    exact stripSuffix?_eq_none (by decide)

/-- The name of a tag goes up to the first blank, and its attributes start there. -/
theorem takeWhile_tag (hname : isName name = true) (attributes : List (String × String)) :
    (name.toList ++ writeAttributes attributes).takeWhile (!isBlank ·) = name.toList ∧
      (name.toList ++ writeAttributes attributes).dropWhile (!isBlank ·)
        = writeAttributes attributes := by
  have hplain : ∀ c ∈ name.toList, (!isBlank c) = true := by
    intro c hc
    rw [(of_isNameChar (mem_isName hname c hc)).1]
    rfl
  rw [List.takeWhile_append_of_pos hplain, List.dropWhile_append_of_pos hplain]
  cases attributes with
  | nil => exact ⟨List.append_nil _, rfl⟩
  | cons first attributes => exact ⟨List.append_nil _, rfl⟩

/-- A tag without a slash opens an element. -/
theorem tagEvent_start (hname : isName name = true) (h : areAttributes attributes = true) :
    tagEvent (name.toList ++ writeAttributes attributes) = .start name attributes := by
  obtain ⟨htake, hdrop⟩ := takeWhile_tag hname attributes
  rw [tagEvent, stripSuffix?_tag hname]
  dsimp only
  rw [htake, hdrop, attributesFrom_write h (by simp) (Nat.lt_succ_self _), String.ofList_toList]
  rfl

/-- A tag with a slash is an element without contents. -/
theorem tagEvent_empty (hname : isName name = true) (h : areAttributes attributes = true) :
    tagEvent (name.toList ++ writeAttributes attributes ++ ['/']) = .empty name attributes := by
  obtain ⟨htake, hdrop⟩ := takeWhile_tag hname attributes
  rw [tagEvent, stripSuffix?_slash]
  dsimp only
  rw [htake, hdrop, attributesFrom_write h (by simp) (Nat.lt_succ_self _), String.ofList_toList]
  rfl

/-! ## One event -/

/-- The open elements after the event of a tag. -/
def openedAfter (opened : List String) : Event → List String
  | .start name _ => name :: opened
  | _ => opened

variable {fuel : Nat} {opened : List String}

/-- A tag that is neither a declaration, an instruction nor a closing tag gives its event. -/
theorem eventsFrom_tag {content : List Char} (hc : c ≠ '!' ∧ c ≠ '?' ∧ c ≠ '/')
    -- one case for each mark that may follow the bracket
    (hsplit : splitTag none (c :: cs) = some (content, rest)) :
    eventsFrom (fuel + 1) opened ('<' :: c :: cs)
      = tagEvent content :: eventsFrom fuel (openedAfter opened (tagEvent content)) rest := by
  obtain ⟨hbang, hquestion, hslash⟩ := hc
  rw [eventsFrom, List.dropWhile_cons_of_neg (by decide)]
  split
  · rename_i heq
    cases heq
  · rename_i heq
    exact absurd (List.cons.inj (List.cons.inj heq).2).1 hbang
  · rename_i heq
    exact absurd (List.cons.inj (List.cons.inj heq).2).1 hquestion
  · rename_i heq
    exact absurd (List.cons.inj (List.cons.inj heq).2).1 hslash
  · rename_i heq
    obtain rfl := (List.cons.inj heq).2
    rw [hsplit]
    dsimp only
    cases tagEvent content with
    | start name attributes => rfl
    | empty name attributes => rfl
    | finish name => rfl
    | text content => rfl
  · rename_i heq
    exact absurd (List.cons.inj heq).1 (by decide)
  · rename_i hlt _ heq
    exact absurd (List.cons.inj heq).1.symm hlt

/-- A written tag gives its event, and what follows it is read next. -/
theorem eventsFrom_open (hname : isName name = true) (h : areAttributes attributes = true)
    {close : List Char} (hclose : ∀ c ∈ close, c = '/') (rest : List Char) :
    eventsFrom (fuel + 1) opened
        ('<' :: (name.toList ++ writeAttributes attributes ++ close ++ '>' :: rest))
      = tagEvent (name.toList ++ writeAttributes attributes ++ close) :: eventsFrom fuel
          (openedAfter opened (tagEvent (name.toList ++ writeAttributes attributes ++ close)))
          rest := by
  obtain ⟨first, more, hcons, hfirst, -⟩ := exists_cons_of_isName hname
  obtain ⟨-, -, -, hslash, -, -, -, hbang, hquestion, -⟩ := of_isNameChar hfirst
  have hsplit := splitTag_tag hname h hclose rest
  have hfirst : name.toList ++ writeAttributes attributes ++ close ++ '>' :: rest
      = first :: (more ++ writeAttributes attributes ++ close ++ '>' :: rest) := by
    rw [hcons]
    rfl
  rw [hfirst] at hsplit ⊢
  exact eventsFrom_tag ⟨hbang, hquestion, hslash⟩ hsplit

/-- A closing tag closes the element that was opened last. -/
theorem eventsFrom_finish (hname : isName name = true) (rest : List Char) :
    eventsFrom (fuel + 1) (name :: opened) ('<' :: '/' :: (name.toList ++ '>' :: rest))
      = .finish name :: eventsFrom fuel opened rest := by
  have hsplit : splitTag none (name.toList ++ '>' :: rest) = some (name.toList, rest) := by
    have hend : splitTag none ('>' :: rest) = some ([], rest) := rfl
    rw [splitTag_plain (plain_of_isName hname), hend]
    simp
  -- blanks after the name would be dropped, but there are none
  have htrim : Chars.dropEndWhile isBlank name.toList = name.toList := by
    refine List.rdropWhile_eq_self_iff.mpr fun hne => ?_
    have hlast := of_isNameChar (mem_isName hname _ (List.getLast_mem hne))
    simp [hlast.1]
  rw [eventsFrom, List.dropWhile_cons_of_neg (by decide)]
  split
  · rename_i heq
    cases heq
  · rename_i heq
    exact absurd (List.cons.inj (List.cons.inj heq).2).1 (by decide)
  · rename_i heq
    exact absurd (List.cons.inj (List.cons.inj heq).2).1 (by decide)
  · rename_i heq
    obtain rfl := (List.cons.inj (List.cons.inj heq).2).2
    rw [hsplit]
    dsimp only
    rw [htrim, String.ofList_toList, if_pos (beq_self_eq_true name)]
  · rename_i hslash heq
    exact absurd (List.cons.inj heq).2.symm (hslash _)
  · rename_i heq
    exact absurd (List.cons.inj heq).1 (by decide)
  · rename_i hlt _ heq
    exact absurd (List.cons.inj heq).1.symm hlt

/-- A text after a run of text: it is at its end, or at a tag. -/
def Stops (cs : List Char) : Prop :=
  cs = [] ∨ ∃ rest, cs = '<' :: rest

/-- A run of text that is not blank gives its trimmed text. -/
theorem eventsFrom_text (htext : ∀ c ∈ cs, c ≠ '<' ∧ c ≠ '&') {first : Char} {more : List Char}
    (hdrop : cs.dropWhile isBlank = first :: more) (hrest : Stops rest) :
    eventsFrom (fuel + 1) opened (cs ++ rest)
      = .text (String.ofList (Chars.trimWhile isBlank cs)) :: eventsFrom fuel opened rest := by
  have hmem : ∀ c ∈ first :: more, c ≠ '<' ∧ c ≠ '&' := by
    rw [← hdrop]
    exact fun c hc => htext c ((List.dropWhile_suffix _).subset hc)
  rw [List.forall_mem_cons] at hmem
  obtain ⟨⟨hlt, hamp⟩, hmore⟩ := hmem
  have hpart : ∀ c ∈ more, (c != '<' && c != '&') = true := by
    intro c hc
    simpa using hmore c hc
  -- the run stops where it was written to stop
  have hstop : rest.takeWhile (fun c => c != '<' && c != '&') = [] ∧
      rest.dropWhile (fun c => c != '<' && c != '&') = rest := by
    rcases hrest with rfl | ⟨cs, rfl⟩
    · exact ⟨rfl, rfl⟩
    · exact ⟨rfl, rfl⟩
  have hall : (cs ++ rest).dropWhile isBlank = first :: (more ++ rest) := by
    rw [List.dropWhile_append, hdrop]
    rfl
  rw [eventsFrom, hall]
  split
  · rename_i heq
    cases heq
  · rename_i heq
    exact absurd (List.cons.inj heq).1 hlt
  · rename_i heq
    exact absurd (List.cons.inj heq).1 hlt
  · rename_i heq
    exact absurd (List.cons.inj heq).1 hlt
  · rename_i heq
    exact absurd (List.cons.inj heq).1 hlt
  · rename_i heq
    exact absurd (List.cons.inj heq).1 hamp
  · rename_i heq
    obtain ⟨rfl, rfl⟩ := List.cons.inj heq
    dsimp only
    rw [List.takeWhile_append_of_pos hpart, List.dropWhile_append_of_pos hpart, hstop.1, hstop.2,
      List.append_nil, Chars.trimWhile, hdrop]

/-- A blank run gives nothing. -/
theorem eventsFrom_blank (hblank : ∀ c ∈ cs, isBlank c = true) (rest : List Char) :
    eventsFrom fuel opened (cs ++ rest) = eventsFrom fuel opened rest := by
  cases fuel with
  | zero => rfl
  | succ fuel => rw [eventsFrom, eventsFrom, List.dropWhile_append_of_pos hblank]

/-- A blank run has no trimmed text. -/
theorem trimmed?_of_blank {run : String} (h : ∀ c ∈ run.toList, isBlank c = true) :
    trimmed? run = none := by
  rw [trimmed?, Chars.trimWhile, List.dropWhile_eq_nil_iff.mpr h]
  rfl

/-- A run that is not blank has one. -/
theorem trimmed?_of_dropWhile {run : String} {first : Char} {more : List Char}
    (h : run.toList.dropWhile isBlank = first :: more) :
    trimmed? run = some (String.ofList (Chars.trimWhile isBlank run.toList)) := by
  have hfirst : isBlank first = false := by
    have hdrop : run.toList.dropWhile isBlank ≠ [] := by simp [h]
    have hhead := List.head_dropWhile_not isBlank hdrop
    simpa [h] using hhead
  -- the first character that is not blank is kept from both ends
  have hne : Chars.trimWhile isBlank run.toList ≠ [] := by
    rw [Chars.trimWhile, h]
    intro hnil
    have hblank := List.rdropWhile_eq_nil_iff.mp hnil first (List.mem_cons_self ..)
    exact absurd (hfirst.symm.trans hblank) (by decide)
  rw [trimmed?, if_neg (by simpa using hne)]

/-! ## Whole trees -/

/--
A written tree is read event by event, and what follows it is read next, with fuel left. The fuel is
counted by the characters to come, of which every event takes one at least.
-/
def Content.Reads (c : Content) : Prop :=
  ∀ (fuel : Nat) (opened : List String) (rest : List Char), Stops rest →
    (c.write ++ rest).length < fuel →
    ∃ left, rest.length < left ∧
      eventsFrom fuel opened (c.write ++ rest) = c.events ++ eventsFrom left opened rest

namespace Content

variable {inside after : Content}

/-- After a run of text comes a tag, or nothing. -/
theorem stops_write (h : after.startsWithText = false) (hrest : Stops rest) :
    Stops (after.write ++ rest) := by
  cases after with
  | nil => exact hrest
  | text run after => cases h
  | closed name attributes after => exact .inr ⟨_, rfl⟩
  | element name attributes inside after => exact .inr ⟨_, rfl⟩

/-- A run of text is read, or passed over if it is blank. -/
theorem Reads.text {run : String} (htext : ∀ c ∈ run.toList, c ≠ '<' ∧ c ≠ '&')
    (hstart : after.startsWithText = false) (hafter : after.Reads) :
    (Content.text run after).Reads := by
  intro fuel opened rest hrest hfuel
  rw [write, List.append_assoc, List.length_append] at hfuel
  rw [write, List.append_assoc, events]
  cases hdrop : run.toList.dropWhile isBlank with
  | nil =>
    have hblank := List.dropWhile_eq_nil_iff.mp hdrop
    rw [eventsFrom_blank hblank, trimmed?_of_blank hblank]
    exact hafter fuel opened rest hrest (by omega)
  | cons first more =>
    cases fuel with
    | zero => cases hfuel
    | succ fuel =>
      -- the run has a character that is not blank, so it takes some of the fuel
      have hlength := congrArg List.length hdrop
      have hle : (run.toList.dropWhile isBlank).length ≤ run.toList.length :=
        (List.dropWhile_suffix isBlank).length_le
      rw [List.length_cons] at hlength
      obtain ⟨left, hleft, hevents⟩ := hafter fuel opened rest hrest (by omega)
      refine ⟨left, hleft, ?_⟩
      rw [eventsFrom_text htext hdrop (stops_write hstart hrest), hevents,
        trimmed?_of_dropWhile hdrop]
      rfl

/-- An element without contents is read as one tag. -/
theorem Reads.closed (hname : isName name = true) (hattributes : areAttributes attributes = true)
    (hafter : after.Reads) : (Content.closed name attributes after).Reads := by
  intro fuel opened rest hrest hfuel
  have hwrite : (Content.closed name attributes after).write ++ rest
      = '<' :: (name.toList ++ writeAttributes attributes ++ ['/']
        ++ '>' :: (after.write ++ rest)) := by
    simp [write]
  rw [hwrite] at hfuel ⊢
  cases fuel with
  | zero => cases hfuel
  | succ fuel =>
    have hnext : (after.write ++ rest).length < fuel := by
      simp only [List.length_cons, List.length_append] at hfuel ⊢
      omega
    obtain ⟨left, hleft, hevents⟩ := hafter fuel opened rest hrest hnext
    refine ⟨left, hleft, ?_⟩
    rw [eventsFrom_open hname hattributes (by simp), tagEvent_empty hname hattributes, events,
      List.cons_append, ← hevents]
    rfl

/-- An element is read as its opening tag, its contents and its closing tag. -/
theorem Reads.element (hname : isName name = true) (hattributes : areAttributes attributes = true)
    (hinside : inside.Reads) (hafter : after.Reads) :
    (Content.element name attributes inside after).Reads := by
  intro fuel opened rest hrest hfuel
  generalize hclose : '<' :: '/' :: (name.toList ++ '>' :: (after.write ++ rest)) = close
  have hstops : Stops close := .inr ⟨_, hclose.symm⟩
  have hwrite : (Content.element name attributes inside after).write ++ rest
      = '<' :: (name.toList ++ writeAttributes attributes ++ []
        ++ '>' :: (inside.write ++ close)) := by
    simp [write, ← hclose]
  rw [hwrite] at hfuel ⊢
  cases fuel with
  | zero => cases hfuel
  | succ fuel =>
    have hnext : (inside.write ++ close).length < fuel := by
      simp only [List.length_cons, List.length_append] at hfuel ⊢
      omega
    obtain ⟨left, hleft, hcontents⟩ := hinside fuel (name :: opened) close hstops hnext
    -- what is left after the contents starts with the closing tag
    subst hclose
    cases left with
    | zero => cases hleft
    | succ left =>
      have hbehind : (after.write ++ rest).length < left := by
        simp only [List.length_cons, List.length_append] at hleft ⊢
        omega
      obtain ⟨last, hlast, hevents⟩ := hafter left opened rest hrest hbehind
      refine ⟨last, hlast, ?_⟩
      rw [eventsFrom_open hname hattributes (by simp), List.append_nil,
        tagEvent_start hname hattributes, openedAfter, hcontents, eventsFrom_finish hname, hevents,
        events]
      simp

/-- Every proper tree is read as it is written. -/
theorem reads_of_isWellFormed {c : Content} (h : c.isWellFormed = true) : c.Reads := by
  induction c with
  | nil => exact fun fuel _ _ _ hfuel => ⟨fuel, hfuel, rfl⟩
  | text run after ih =>
    rw [isWellFormed, Bool.and_eq_true, Bool.and_eq_true, Bool.not_eq_true'] at h
    obtain ⟨⟨htext, hstart⟩, hafter⟩ := h
    exact .text (by simpa using htext) hstart (ih hafter)
  | closed name attributes after ih =>
    rw [isWellFormed, Bool.and_eq_true, Bool.and_eq_true] at h
    obtain ⟨⟨hname, hattributes⟩, hafter⟩ := h
    exact .closed hname hattributes (ih hafter)
  | element name attributes inside after ihInside ihAfter =>
    rw [isWellFormed, Bool.and_eq_true, Bool.and_eq_true, Bool.and_eq_true] at h
    obtain ⟨⟨⟨hname, hattributes⟩, hinside⟩, hafter⟩ := h
    exact .element hname hattributes (ihInside hinside) (ihAfter hafter)

end Content

/-- The events of a written tree are those of the tree. -/
theorem events_write {c : Content} (h : c.isWellFormed = true) (hstart : c.startsWithText = false) :
    events (String.ofList c.write) = c.events := by
  -- no byte order mark stands before the first tag
  have hmark : Chars.stripPrefix? ['\ufeff'] c.write = none := by
    cases c with
    | nil => rfl
    | text run after => cases hstart
    | closed name attributes after => rfl
    | element name attributes inside after => rfl
  have hfuel : (c.write ++ []).length < c.write.length + 1 := by simp
  obtain ⟨left, -, hread⟩ := Content.reads_of_isWellFormed h _ [] [] (.inl rfl) hfuel
  have hend : eventsFrom left [] [] = [] := by
    cases left with
    | zero => rfl
    | succ left => rfl
  rw [List.append_nil, hend, List.append_nil] at hread
  rw [events, String.toList_ofList, hmark]
  exact hread

end

end SourceAtlas.Xml
