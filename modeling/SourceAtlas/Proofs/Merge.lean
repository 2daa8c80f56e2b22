import SourceAtlas.Merge
import SourceAtlas.Proofs.Dict

/-!
# Merging: the counts of a language

The outcomes of a build are joined into one table of counts by the name of the language. Where every
language has at most one outcome, the table has the counts of that outcome and nothing else:

* **`find?_summaries_of_mem`**: the entry of a language is the summary of its outcome;
* **`find?_summaries_of_not_mem`**: a language without an outcome has no entry.
-/

namespace SourceAtlas

theorem Language.name_injective : Function.Injective Language.name := by
  intro l l'
  cases l <;> cases l' <;> decide

/-- Counting from nothing leaves the counts as they are. -/
theorem LanguageSummary.empty_add (s : LanguageSummary) : LanguageSummary.add {} s = s := by
  unfold LanguageSummary.add
  simp only [Nat.zero_add]

namespace Merge

/-- What one outcome does to the table of counts. -/
def addSummary (d : Dict LanguageSummary) (o : LanguageOutcome) : Dict LanguageSummary :=
  d.update o.language.name fun s => (s.getD {}).add o.summary

theorem find?_addSummary (d : Dict LanguageSummary) (o : LanguageOutcome) (l : Language) :
    (addSummary d o).find? l.name =
      if l = o.language then some (((d.find? l.name).getD {}).add o.summary)
      else d.find? l.name := by
  unfold addSummary
  rw [Dict.find?_update]
  by_cases hl : l = o.language
  · rw [if_pos hl, if_pos (congrArg Language.name hl), hl]
  · rw [if_neg hl, if_neg fun h => hl (Language.name_injective h)]

/-- Outcomes of other languages do not touch the entry of a language. -/
theorem find?_foldl_addSummary_of_not_mem {outcomes : List LanguageOutcome} {l : Language}
    (h : l ∉ outcomes.map (·.language)) (d : Dict LanguageSummary) :
    (outcomes.foldl addSummary d).find? l.name = d.find? l.name := by
  induction outcomes generalizing d with
  | nil => rfl
  | cons o rest ih =>
    rw [List.map_cons, List.mem_cons, not_or] at h
    rw [List.foldl_cons, ih h.2, find?_addSummary, if_neg h.1]

theorem find?_summaries_of_not_mem {outcomes : List LanguageOutcome} {l : Language}
    (h : l ∉ outcomes.map (·.language)) : (summaries outcomes).find? l.name = none :=
  find?_foldl_addSummary_of_not_mem h Dict.empty

/-- The entry of a language is the summary of its outcome. -/
theorem find?_summaries_of_mem {outcomes : List LanguageOutcome} {o : LanguageOutcome}
    (hnodup : (outcomes.map (·.language)).Nodup) (ho : o ∈ outcomes) :
    (summaries outcomes).find? o.language.name = some o.summary := by
  -- the only outcome that touches the entry stands between two groups that do not
  obtain ⟨before, after, rfl⟩ := List.append_of_mem ho
  rw [List.map_append, List.map_cons, List.nodup_append] at hnodup
  obtain ⟨-, hafter, hdisjoint⟩ := hnodup
  have hbefore : o.language ∉ before.map (·.language) := fun hmem =>
    hdisjoint _ hmem _ List.mem_cons_self rfl
  have hlast := find?_foldl_addSummary_of_not_mem (List.nodup_cons.mp hafter).1
    (addSummary (before.foldl addSummary Dict.empty) o)
  show ((before ++ o :: after).foldl addSummary Dict.empty).find? o.language.name = _
  rw [List.foldl_append, List.foldl_cons, hlast, find?_addSummary, if_pos rfl,
    find?_foldl_addSummary_of_not_mem hbefore, Dict.find?_empty, Option.getD_none,
    LanguageSummary.empty_add]

end Merge

end SourceAtlas
