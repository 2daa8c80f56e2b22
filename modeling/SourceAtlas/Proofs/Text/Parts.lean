import SourceAtlas.Proofs.Traversal
import SourceAtlas.Text.Basic

/-!
# Texts: parts with separators, and what stands at either end

A text that is cut at a separator and put together again stays as it is. Here are the facts about
the parts that go beyond that, and what it means for a text to start or end with another.
-/

namespace SourceAtlas

namespace Chars

/-! ## Parts with a separator between them -/

theorem not_mem_of_mem_splitOn {sep : Char} {cs part : List Char} (h : part ∈ cs.splitOn sep) :
    sep ∉ part := by
  induction cs generalizing part with
  | nil =>
    rw [List.splitOn_nil, List.mem_singleton] at h
    rw [h]
    exact List.not_mem_nil
  | cons c cs ih =>
    rw [List.splitOn_cons_eq_if_modifyHead] at h
    split at h
    · rcases List.mem_cons.mp h with rfl | hmem
      · exact List.not_mem_nil
      · exact ih hmem
    next hc =>
      -- the first part gets the character, which is not the separator
      cases hsplit : cs.splitOn sep with
      | nil => exact absurd hsplit (List.splitOn_ne_nil sep cs)
      | cons first rest =>
        rw [hsplit, List.modifyHead_cons] at h
        rcases List.mem_cons.mp h with rfl | hmem
        · rw [List.mem_cons, not_or]
          refine ⟨fun heq => hc (beq_iff_eq.mpr heq.symm), ih ?_⟩
          rw [hsplit]
          exact List.mem_cons_self
        · refine ih ?_
          rw [hsplit]
          exact List.mem_cons_of_mem _ hmem

theorem intercalate_append {sep : Char} {parts more : List (List Char)} (hne : parts ≠ [])
    (hmore : more ≠ []) : [sep].intercalate (parts ++ more) =
      [sep].intercalate parts ++ sep :: [sep].intercalate more := by
  induction parts with
  | nil => exact absurd rfl hne
  | cons part parts ih =>
    -- the separator stands behind the last part of the first list
    by_cases hlast : parts = []
    · subst hlast
      rw [List.singleton_append, List.intercalate_cons_of_ne_nil hmore, List.intercalate_singleton,
        List.append_assoc, List.singleton_append]
    · rw [List.cons_append,
        List.intercalate_cons_of_ne_nil (List.append_ne_nil_of_left_ne_nil hlast _),
        List.intercalate_cons_of_ne_nil hlast, ih hlast, List.append_assoc, List.append_assoc,
        List.append_assoc]

/-- Parts start with a character of the first one, unless that is empty. -/
theorem exists_head_intercalate (sep : Char) {part : List Char} (h : part ≠ [])
    (parts : List (List Char)) :
    ∃ c cs, [sep].intercalate (part :: parts) = c :: cs ∧ c ∈ part := by
  obtain ⟨c, cs, rfl⟩ := List.exists_cons_of_ne_nil h
  by_cases hlast : parts = []
  · exact ⟨c, cs, by rw [hlast, List.intercalate_singleton], List.mem_cons_self⟩
  · exact ⟨c, _, List.intercalate_cons_of_ne_nil hlast, List.mem_cons_self⟩

/-- Another separator between parts in which the first one does not occur. -/
theorem map_replace_intercalate {old new : Char} {parts : List (List Char)}
    (h : ∀ part ∈ parts, old ∉ part) :
    ([old].intercalate parts).map (fun c => if c == old then new else c)
      = [new].intercalate parts := by
  -- within the parts there is nothing to replace
  have hpart : ∀ part ∈ parts, part.map (fun c => if c == old then new else c) = part := by
    intro part hpart
    refine Traversal.map_eq_self fun c hc => ?_
    have hne : c ≠ old := fun heq => h part hpart (heq ▸ hc)
    rw [if_neg (by simpa using hne)]
  induction parts with
  | nil => rfl
  | cons part parts ih =>
    have hfirst := hpart part List.mem_cons_self
    have hrest := ih (fun p hp => h p (List.mem_cons_of_mem _ hp))
      (fun p hp => hpart p (List.mem_cons_of_mem _ hp))
    by_cases hlast : parts = []
    · subst hlast
      rw [List.intercalate_singleton, List.intercalate_singleton, hfirst]
    · rw [List.intercalate_cons_of_ne_nil hlast, List.intercalate_cons_of_ne_nil hlast,
        List.map_append, List.map_append, hfirst, hrest]
      simp

end Chars

namespace Text

/-! ## Starts and ends -/

theorem startsWith_iff {s start : String} :
    startsWith s start = true ↔ ∃ rest, s = start ++ rest := by
  unfold startsWith
  rw [List.isPrefixOf_iff_prefix]
  constructor
  · rintro ⟨rest, hrest⟩
    refine ⟨String.ofList rest, ?_⟩
    rw [← String.toList_inj, String.toList_append, String.toList_ofList, hrest]
  · rintro ⟨rest, rfl⟩
    rw [String.toList_append]
    exact List.prefix_append _ _

theorem stripPrefix?_eq_some_iff {s start rest : String} :
    stripPrefix? s start = some rest ↔ s = start ++ rest := by
  unfold stripPrefix? Chars.stripPrefix?
  rw [Option.map_eq_some_iff, ← String.toList_inj, String.toList_append]
  constructor
  · rintro ⟨cs, hcs, rfl⟩
    rw [String.toList_ofList]
    exact (List.isPrefixOf?_eq_some_iff_append_eq.mp hcs).symm
  · intro h
    exact ⟨rest.toList, List.isPrefixOf?_eq_some_iff_append_eq.mpr h.symm, String.ofList_toList⟩

theorem stripSuffix?_eq_some_iff {s final front : String} :
    stripSuffix? s final = some front ↔ s = front ++ final := by
  unfold stripSuffix? Chars.stripSuffix?
  rw [Option.map_eq_some_iff, ← String.toList_inj, String.toList_append]
  constructor
  · rintro ⟨cs, hcs, rfl⟩
    rw [String.toList_ofList]
    exact (List.isSuffixOf?_eq_some_iff_append_eq.mp hcs).symm
  · intro h
    exact ⟨front.toList, List.isSuffixOf?_eq_some_iff_append_eq.mpr h.symm, String.ofList_toList⟩

end Text

end SourceAtlas
