import SourceAtlas.Model.File
import Mathlib.Data.List.Nodup

/-!
# Lists that keep the first of equal items

`addNew` adds an item to a list unless it is there. Adding one item after another keeps the items in
the order in which they were first seen (`foldl_addNew_eq`), and so a file lists the targets of its
imports (`importTargets_eq`) and the sources of those without one (`externalSources_eq`).
-/

namespace SourceAtlas

section AddNew

variable {α : Type} [BEq α] [LawfulBEq α]

theorem mem_addNew {items : List α} {item a : α} :
    a ∈ addNew items item ↔ a ∈ items ∨ a = item := by
  unfold addNew
  split
  next hmem =>
    constructor
    · exact Or.inl
    · rintro (h | rfl)
      · exact h
      · exact List.contains_iff_mem.mp hmem
  next => simp

theorem nodup_addNew {items : List α} (h : items.Nodup) (item : α) : (addNew items item).Nodup := by
  unfold addNew
  split
  next => exact h
  next hnew =>
    rw [List.contains_iff_mem] at hnew
    rw [List.nodup_append]
    refine ⟨h, List.nodup_singleton item, ?_⟩
    intro a ha b hb heq
    rw [List.mem_singleton.mp hb] at heq
    exact hnew (heq ▸ ha)

/-! ## One item after another -/

theorem mem_foldl_addNew {items acc : List α} {a : α} :
    a ∈ items.foldl addNew acc ↔ a ∈ acc ∨ a ∈ items := by
  induction items generalizing acc with
  | nil => simp
  | cons item items ih =>
    rw [List.foldl_cons, ih, mem_addNew, List.mem_cons, or_assoc]

theorem nodup_foldl_addNew {acc : List α} (h : acc.Nodup) (items : List α) :
    (items.foldl addNew acc).Nodup :=
  List.foldlRecOn items addNew (motive := List.Nodup) h fun _ hacc item _ => nodup_addNew hacc item

/-- What comes in is what was not there, each item where it was first seen. -/
theorem foldl_addNew_eq (items acc : List α) :
    items.foldl addNew acc = acc ++ (items.filter (!acc.contains ·)).eraseDups := by
  induction items generalizing acc with
  | nil => simp
  | cons item items ih =>
    rw [List.foldl_cons, ih]
    unfold addNew
    cases hitem : acc.contains item with
    -- the item was there before, so it is filtered out like its later occurrences
    | true =>
      rw [List.filter_cons, hitem, if_pos rfl]
      rfl
    | false =>
      -- the item is new, and its later occurrences are not
      have hlater : items.filter (fun a => !(acc ++ [item]).contains a) =
          (items.filter (!acc.contains ·)).filter (fun a => !(a == item)) := by
        rw [List.filter_filter]
        refine List.filter_congr fun a _ => ?_
        rw [List.contains_append]
        simp [Bool.and_comm]
      rw [List.filter_cons, hitem, if_neg Bool.false_ne_true, hlater]
      simp [List.eraseDups_cons]

theorem foldl_addNew_nil (items : List α) : items.foldl addNew [] = items.eraseDups := by
  rw [foldl_addNew_eq, List.nil_append]
  congr 1
  exact List.filter_eq_self.mpr fun _ _ => rfl

end AddNew

/-! ## The import lists of a file -/

namespace FileRecord

/-- The targets of imports in the order in which they are first seen, without the file itself. -/
theorem importTargets_eq (path : String) (imports : List Import) :
    importTargets path imports =
      (((imports.filter (·.kind == .inRepository)).flatMap (·.targets)).filter
        (· != path)).eraseDups := by
  rw [← foldl_addNew_nil, List.foldl_filter]
  unfold importTargets
  congr 1
  -- skipping the file itself is filtering it out beforehand
  funext seen target
  cases h : target == path <;> simp [bne, h]

theorem externalSources_eq (imports : List Import) :
    externalSources imports =
      ((imports.filter (·.kind != .inRepository)).map (·.source)).eraseDups :=
  foldl_addNew_nil _

theorem importTargets_nodup (path : String) (imports : List Import) :
    (importTargets path imports).Nodup := by
  rw [importTargets_eq, ← foldl_addNew_nil]
  exact nodup_foldl_addNew List.nodup_nil _

theorem externalSources_nodup (imports : List Import) : (externalSources imports).Nodup :=
  nodup_foldl_addNew List.nodup_nil _

theorem mem_importTargets {path t : String} {imports : List Import} :
    t ∈ importTargets path imports ↔
      t ≠ path ∧ ∃ i ∈ imports, i.kind = .inRepository ∧ t ∈ i.targets := by
  rw [importTargets_eq, List.mem_eraseDups, List.mem_filter, List.mem_flatMap, bne_iff_ne, and_comm]
  simp only [List.mem_filter, beq_iff_eq, and_assoc]

theorem mem_externalSources {source : String} {imports : List Import} :
    source ∈ externalSources imports ↔
      ∃ i ∈ imports, i.kind ≠ .inRepository ∧ i.source = source := by
  rw [externalSources_eq, List.mem_eraseDups, List.mem_map]
  simp only [List.mem_filter, bne_iff_ne, and_assoc]

end FileRecord

end SourceAtlas
