import SourceAtlas.Language
import SourceAtlas.Proofs.RepoPath

/-!
# The language of a path

The language of a path is read off its last name, whatever stands in front and however many slashes
and dots follow. Everything here follows from one equation, `names_append_slash`: the names of a
path are those before and those after a slash.

* **`ofPath?_eq`**: the language of a path is that of its last name;
* **`ofPath?_normal_of_slashes`**: the normal form keeps the language of a path without backslashes;
* **`ofPath?_normal_of_some`**: on any path it can lose a language, as it does for `a\.py`, but
  never gives another one;
* **`ofPath?_of_suffix`**: an ending after a dot that belongs to no language decides.
-/

namespace SourceAtlas

/-! ## The last occurrence of a character -/

namespace Chars

variable {c : Char}

theorem splitLast?_of_not_mem {cs : List Char} (h : c ∉ cs) : splitLast? (· == c) cs = none := by
  induction cs with
  | nil => rfl
  | cons d cs ih =>
    rw [List.mem_cons, not_or] at h
    have hd : (d == c) = false := beq_eq_false_iff_ne.mpr (Ne.symm h.1)
    simp [splitLast?, ih h.2, hd]

theorem splitLast?_append (before : List Char) {after : List Char} (h : c ∉ after) :
    splitLast? (· == c) (before ++ c :: after) = some (before, after) := by
  -- a later occurrence goes before one in front
  induction before with
  | nil => simp [splitLast?, splitLast?_of_not_mem h]
  | cons d before ih => rw [List.cons_append, splitLast?, ih]

/-- A character that occurs has a last occurrence. -/
theorem exists_last_of_mem {cs : List Char} (h : c ∈ cs) :
    ∃ before after, cs = before ++ c :: after ∧ c ∉ after := by
  induction cs with
  | nil => cases h
  | cons d cs ih =>
    -- an occurrence further on is the one to take
    by_cases hmem : c ∈ cs
    · obtain ⟨before, after, rfl, hafter⟩ := ih hmem
      exact ⟨d :: before, after, rfl, hafter⟩
    · obtain rfl := (List.mem_cons.mp h).resolve_right hmem
      exact ⟨[], cs, rfl, hmem⟩

end Chars

namespace RepoPath

/-! ## Names -/

/-- The parts of a path that name a file or directory. -/
def names (cs : List Char) : List (List Char) :=
  (cs.splitOn '/').filter fun part => !part.isEmpty && part != ['.']

theorem names_append_slash (before after : List Char) :
    names (before ++ '/' :: after) = names before ++ names after := by
  unfold names
  rw [List.splitOn_append_cons_self, List.filter_append]

theorem names_slash (cs : List Char) : names ('/' :: cs) = names cs :=
  names_append_slash [] cs

theorem names_dot_slash (cs : List Char) : names ('.' :: '/' :: cs) = names cs :=
  names_append_slash ['.'] cs

/-- What the normal form takes off at the start are no names. -/
theorem names_normalChars (cs : List Char) : names (normalChars cs) = names (cs.map slashed) := by
  -- leading `./` and slashes are cut off part by part, and none of them is a name
  have hdots : ∀ cs, names (dropDotSlash cs) = names cs := by
    intro cs
    fun_induction dropDotSlash cs with
    | case1 rest ih => rw [ih, names_dot_slash]
    | case2 cs => rfl
  have hslashes : ∀ cs, names (cs.dropWhile (· == '/')) = names cs := by
    intro cs
    induction cs with
    | nil => rfl
    | cons c cs ih =>
      rw [List.dropWhile_cons]
      split
      next hc => rw [ih, beq_iff_eq.mp hc, names_slash]
      next => rfl
  exact (hslashes _).trans (hdots _)

/-- Each part between slashes has names of its own once backslashes count as slashes. -/
theorem names_map_slashed (cs : List Char) :
    names (cs.map slashed) = (cs.splitOn '/').flatMap fun part => names (part.map slashed) := by
  -- for any parts joined by slashes, which a path is
  have hjoin : ∀ parts : List (List Char), parts ≠ [] →
      names ((['/'].intercalate parts).map slashed) =
        parts.flatMap fun part => names (part.map slashed) := by
    intro parts hne
    induction parts with
    | nil => exact absurd rfl hne
    | cons part parts ih =>
      cases parts with
      | nil => simp
      | cons next rest =>
        have hslash : (['/'].intercalate (part :: next :: rest)).map slashed =
            part.map slashed ++ '/' :: (['/'].intercalate (next :: rest)).map slashed := by
          simp [List.intercalate, slashed]
        rw [hslash, names_append_slash, ih (List.cons_ne_nil _ _)]
        simp only [List.flatMap_cons]
  have h := hjoin (cs.splitOn '/') (List.splitOn_ne_nil '/' cs)
  rwa [List.intercalate_splitOn] at h

/--
The last name within the last name of a path is the last one once backslashes count as slashes.
-/
theorem getLast?_names_map_slashed {cs name last : List Char}
    (hname : (names cs).getLast? = some name)
    (hlast : (names (name.map slashed)).getLast? = some last) :
    (names (cs.map slashed)).getLast? = some last := by
  unfold names at hname
  rw [List.getLast?_filter, List.find?_eq_some_iff_append] at hname
  obtain ⟨-, after, before, hsplit, hafter⟩ := hname
  have hparts : cs.splitOn '/' = before.reverse ++ name :: after.reverse := by
    have h := congrArg List.reverse hsplit
    simpa using h
  -- the parts that follow are empty or a dot, and stay so
  have hrest : (after.reverse.flatMap fun part => names (part.map slashed)) = [] := by
    refine List.flatMap_eq_nil_iff.mpr fun part hpart => ?_
    have hempty := hafter part (List.mem_reverse.mp hpart)
    rw [Bool.not_eq_true', Bool.and_eq_false_iff, Bool.not_eq_false', List.isEmpty_iff,
      bne_eq_false_iff_eq] at hempty
    rcases hempty with rfl | rfl
    · rfl
    · decide
  rw [names_map_slashed, hparts, List.flatMap_append, List.flatMap_cons, hrest, List.append_nil,
    List.getLast?_append, hlast]
  rfl

/-- What follows a dot at the end of a path, if it has no slash, ends its last name. -/
theorem getLast?_names_of_suffix (before : List Char) {ext : List Char} (hne : ext ≠ [])
    (hslash : '/' ∉ ext) :
    ∃ stem, (names (before ++ '.' :: ext)).getLast? = some (stem ++ '.' :: ext) := by
  -- a part that ends so is neither empty nor a dot
  have hname : ∀ stem, '/' ∉ stem → names (stem ++ '.' :: ext) = [stem ++ '.' :: ext] := by
    intro stem hstem
    have hnone : '/' ∉ stem ++ '.' :: ext := by simp [hstem, hslash]
    unfold names
    rw [List.splitOn_eq_singleton hnone]
    refine List.filter_eq_self.mpr fun part hpart => ?_
    obtain rfl := List.mem_singleton.mp hpart
    cases stem with
    | nil => simpa using hne
    | cons c stem => simp
  by_cases hmem : '/' ∈ before
  · -- the name starts after the last slash
    obtain ⟨front, stem, rfl, hstem⟩ := Chars.exists_last_of_mem hmem
    refine ⟨stem, ?_⟩
    rw [List.append_assoc, List.cons_append, names_append_slash, hname stem hstem]
    simp
  · exact ⟨before, by rw [hname before hmem]; rfl⟩

theorem baseName_suffix (path : String) : (baseName path).toList <:+ path.toList := by
  unfold baseName Text.splitLast?
  by_cases hmem : '/' ∈ path.toList
  · obtain ⟨before, after, hpath, hafter⟩ := Chars.exists_last_of_mem hmem
    rw [hpath, Chars.splitLast?_append before hafter]
    exact ⟨before ++ ['/'], by simp⟩
  · rw [Chars.splitLast?_of_not_mem hmem]
    exact List.suffix_rfl

end RepoPath

namespace Language

open RepoPath (names)

/-! ## The language of the last name -/

/-- The language of a name, by what follows its last dot. -/
def ofFileName? (name : List Char) : Option Language :=
  match Chars.splitLast? (· == '.') name with
  | some (stem, ext) => if stem.isEmpty then none else ofExtension? (String.ofList ext)
  | none => none

theorem ofPath?_eq_bind_fileName? (path : String) :
    ofPath? path = (RepoPath.fileName? path).bind fun name => ofFileName? name.toList := by
  unfold ofPath? RepoPath.fileExtension?
  cases RepoPath.fileName? path with
  | none => rfl
  | some name =>
    dsimp only [bind, Option.bind_some]
    unfold Text.splitLast? ofFileName?
    cases Chars.splitLast? (· == '.') name.toList with
    | none => rfl
    | some found =>
      obtain ⟨stem, ext⟩ := found
      cases stem with
      | nil => rfl
      | cons c stem => simp

/-- The components of a path are its names, but for what stands for the start. -/
theorem components_eq (path : String) : ∃ start : List String,
    RepoPath.components path = start ++ (names path.toList).map String.ofList
      ∧ (start = [] ∨ start = ["/"] ∨ start = ["."]) := by
  have hnames : (names path.toList).map String.ofList =
      (Text.splitOn '/' path).filter fun part => !part.isEmpty && part != "." := by
    unfold names Text.splitOn
    rw [List.filter_map]
    congr 1
    refine List.filter_congr fun part _ => ?_
    -- parts are compared as characters here and as strings there
    have hempty : (String.ofList part).isEmpty = part.isEmpty := by
      rw [Bool.eq_iff_iff, String.isEmpty_iff, List.isEmpty_iff]
      exact (String.ofList_inj : String.ofList part = String.ofList [] ↔ part = [])
    have hdot : (String.ofList part != ".") = (part != ['.']) := by
      rw [Bool.eq_iff_iff, bne_iff_ne, bne_iff_ne]
      exact not_congr (String.ofList_inj : String.ofList part = String.ofList ['.'] ↔ part = ['.'])
    rw [Function.comp_apply, hempty, hdot]
  rw [hnames]
  by_cases hempty : path = ""
  · subst hempty
    exact ⟨[], by decide +kernel, Or.inl rfl⟩
  · have hisEmpty : path.isEmpty = false := by simpa using hempty
    unfold RepoPath.components
    dsimp only
    rw [hisEmpty]
    split
    next rest heq =>
      rw [heq]
      exact ⟨["/"], by simp, Or.inr (Or.inl rfl)⟩
    next rest heq =>
      rw [heq]
      exact ⟨["."], by simp, Or.inr (Or.inr rfl)⟩
    next => exact ⟨[], rfl, Or.inl rfl⟩

/-- The language of a path is that of its last name. -/
theorem ofPath?_eq (path : String) :
    ofPath? path = (names path.toList).getLast?.bind ofFileName? := by
  -- what is no file name has no language either
  have hmoves : ∀ name : String, (name == "/" || name == "." || name == "..") = true →
      ofFileName? name.toList = none := by
    intro name hname
    rw [Bool.or_eq_true, Bool.or_eq_true, beq_iff_eq, beq_iff_eq, beq_iff_eq] at hname
    rcases hname with (rfl | rfl) | rfl <;> decide +kernel
  have hlast : ofPath? path =
      (RepoPath.components path).getLast?.bind fun name => ofFileName? name.toList := by
    rw [ofPath?_eq_bind_fileName?]
    unfold RepoPath.fileName?
    cases (RepoPath.components path).getLast? with
    | none => rfl
    | some name =>
      dsimp only
      split
      next hname => exact (hmoves name hname).symm
      next => rfl
  obtain ⟨start, hcomponents, hstart⟩ := components_eq path
  rw [hlast, hcomponents, List.getLast?_append, List.getLast?_map]
  cases (names path.toList).getLast? with
  -- without a name, the start is all there is
  | none => rcases hstart with rfl | rfl | rfl <;> decide +kernel
  | some name => simp

/-! ## Endings -/

theorem ofFileName?_append (stem : List Char) {ext : List Char} (h : '.' ∉ ext) :
    ofFileName? (stem ++ '.' :: ext) =
      if stem.isEmpty then none else ofExtension? (String.ofList ext) := by
  unfold ofFileName?
  rw [Chars.splitLast?_append stem h]

/-- A name that has a language ends in an extension of the language. -/
theorem exists_extension_of_ofFileName? {name : List Char} {l : Language}
    (h : ofFileName? name = some l) :
    ∃ stem ext, name = stem ++ '.' :: ext ∧ '.' ∉ ext
      ∧ ofExtension? (String.ofList ext) = some l := by
  by_cases hmem : '.' ∈ name
  · obtain ⟨stem, ext, rfl, hext⟩ := Chars.exists_last_of_mem hmem
    rw [ofFileName?_append stem hext] at h
    split at h
    next => cases h
    next => exact ⟨stem, ext, rfl, hext, h⟩
  · unfold ofFileName? at h
    rw [Chars.splitLast?_of_not_mem hmem] at h
    cases h

/-- Extensions are not empty and are made of letters; slashes of both kinds do not occur. -/
theorem plain_of_ofExtension? {ext : List Char} {l : Language}
    (h : ofExtension? (String.ofList ext) = some l) : ext ≠ [] ∧ '/' ∉ ext ∧ '\\' ∉ ext := by
  have hlisted : Text.asciiLower (String.ofList ext) ∈ l.extensions := by
    have hfound := List.find?_some h
    exact List.contains_iff_mem.mp hfound
  have hchars : ∀ e ∈ l.extensions, e ≠ "" ∧ '/' ∉ e.toList ∧ '\\' ∉ e.toList := by
    cases l <;> decide
  -- the table has small letters, and slashes are their own small letters
  have hlower : (Text.asciiLower (String.ofList ext)).toList = ext.map Chars.asciiLower := by
    unfold Text.asciiLower Text.onChars
    rw [String.toList_ofList, String.toList_ofList]
  obtain ⟨hne, hslash, hback⟩ := hchars _ hlisted
  rw [hlower] at hslash hback
  refine ⟨?_, fun hmem => hslash ?_, fun hmem => hback ?_⟩
  · rintro rfl
    exact hne (by decide +kernel)
  · exact List.mem_map.mpr ⟨'/', hmem, by decide⟩
  · exact List.mem_map.mpr ⟨'\\', hmem, by decide⟩

/-- An ending after a dot that belongs to no language decides. -/
theorem ofPath?_of_suffix {path : String} {ext : List Char} (hpath : '.' :: ext <:+ path.toList)
    (hne : ext ≠ []) (hslash : '/' ∉ ext) (hdot : '.' ∉ ext)
    (hnone : ofExtension? (String.ofList ext) = none) : ofPath? path = none := by
  obtain ⟨before, hbefore⟩ := hpath
  obtain ⟨stem, hlast⟩ := RepoPath.getLast?_names_of_suffix before hne hslash
  rw [ofPath?_eq, ← hbefore, hlast, Option.bind_some, ofFileName?_append stem hdot, hnone, ite_self]

/-! ## The normal form -/

/-- The normal form keeps the language of a path without backslashes. -/
theorem ofPath?_normal_of_slashes {path : String} (h : '\\' ∉ path.toList) :
    ofPath? (RepoPath.normal path) = ofPath? path := by
  rw [ofPath?_eq, ofPath?_eq, RepoPath.toList_normal, RepoPath.names_normalChars,
    RepoPath.map_slashed_of_not_mem h]

/-- The normal form does not give a path another language. -/
theorem ofPath?_normal_of_some {path : String} {l : Language} (h : ofPath? path = some l) :
    ofPath? (RepoPath.normal path) = none ∨ ofPath? (RepoPath.normal path) = some l := by
  rw [ofPath?_eq] at h
  obtain ⟨name, hname, hl⟩ := Option.bind_eq_some_iff.mp h
  obtain ⟨stem, ext, rfl, hdot, hext⟩ := exists_extension_of_ofFileName? hl
  obtain ⟨hne, hslash, hback⟩ := plain_of_ofExtension? hext
  -- the extension has no backslash, so it ends the last name afterwards too
  have hmap : ext.map RepoPath.slashed = ext := RepoPath.map_slashed_of_not_mem hback
  obtain ⟨stem', hlast⟩ := RepoPath.getLast?_names_of_suffix (stem.map RepoPath.slashed) hne hslash
  have hnormal : (names (RepoPath.normal path).toList).getLast? = some (stem' ++ '.' :: ext) := by
    rw [RepoPath.toList_normal, RepoPath.names_normalChars]
    refine RepoPath.getLast?_names_map_slashed hname ?_
    rw [List.map_append, List.map_cons, hmap]
    exact hlast
  rw [ofPath?_eq, hnormal, Option.bind_some, ofFileName?_append stem' hdot, hext]
  split
  · exact Or.inl rfl
  · exact Or.inr rfl

end Language

end SourceAtlas
