import SourceAtlas.Proofs.Extract.Imports
import SourceAtlas.Proofs.Index.Registered
import SourceAtlas.Resolve.Import

/-!
# Resolving imports: the targets of static imports

Where a language has static imports, targets are looked up in the index, so they are registered
files (`importTargets_registered`). Elsewhere targets are any known paths of the repository, but
there are no static imports. Either way those of a resolved file point at registered files, which is
`StaticTargetsRegistered`.
-/

namespace SourceAtlas.Resolve

/-- The targets of the static imports found in the repository are registered files. -/
def StaticTargetsRegistered (ix : Index) (imports : List Import) : Prop :=
  ∀ i ∈ imports, i.kind = .inRepository → i.isStatic = true → ∀ t ∈ i.targets, t ∈ ix.files

variable {ix : Index}

/-! ## Targets that come from the index -/

theorem classFile_registered (h : ix.Closed) {qualified p : String}
    (hp : p ∈ classFile ix qualified) : p ∈ ix.files := by
  unfold classFile at hp
  rw [Option.mem_toList] at hp
  obtain ⟨c, hc, rfl⟩ := Option.map_eq_some_iff.mp hp
  exact h.classQualified? hc

theorem javaTargets_registered (h : ix.Closed) {i : Import} {p : String}
    (hp : p ∈ javaTargets ix i) : p ∈ ix.files := by
  unfold javaTargets at hp
  split at hp
  · -- all members of a class, or all classes of a package
    split at hp
    · exact classFile_registered h hp
    · exact h.filesInNamespace hp
  · split at hp
    · -- a member of the class that the source names without its last part
      split at hp
      · exact classFile_registered h hp
      · cases hp
    next => exact classFile_registered h hp

theorem csharpTargets_registered (h : ix.Closed) {i : Import} {p : String}
    (hp : p ∈ csharpTargets ix i) : p ∈ ix.files := by
  -- a static or named import is looked up as a class first
  have hclass : p ∈ (if i.isStatic || !i.bindings.isEmpty then classFile ix i.source else []) →
      p ∈ ix.files := by
    intro hp
    split at hp
    · exact classFile_registered h hp
    · cases hp
  unfold csharpTargets at hp
  by_cases hfound : (!(if i.isStatic || !i.bindings.isEmpty then classFile ix i.source
      else []).isEmpty) = true
  · rw [if_pos hfound] at hp
    exact hclass hp
  · rw [if_neg hfound] at hp
    split at hp
    · cases hp
    · exact h.filesInNamespace hp

/-- Where a language has static imports, the targets of any import are registered files. -/
theorem importTargets_registered (h : ix.Closed) (hl : ix.language.hasStaticImports = true)
    {importer : String} {i : Import} {p : String} (hp : p ∈ importTargets ix importer i) :
    p ∈ ix.files := by
  unfold importTargets at hp
  cases hlang : ix.language with
  | java => rw [hlang] at hp; exact javaTargets_registered h hp
  | csharp => rw [hlang] at hp; exact csharpTargets_registered h hp
  | apex => rw [hlang] at hp; cases hp
  | go | python | typescript => rw [hlang] at hl; cases hl

/-! ## The imports of a file -/

/-- Resolving an import gives it its targets and leaves whether it is static. -/
theorem resolveImport_eq (ix : Index) (importer : String) (i : Import) :
    (resolveImport ix importer i).targets = importTargets ix importer i
      ∧ (resolveImport ix importer i).isStatic = i.isStatic := by
  unfold resolveImport
  cases importTargets ix importer i with
  | nil => exact ⟨rfl, rfl⟩
  | cons t ts => exact ⟨rfl, rfl⟩

/-- The static imports of a file, once resolved, point at registered files. -/
theorem staticTargetsRegistered_resolveImport (h : ix.Closed) (importer : String)
    {imports : List Import}
    (hstatic : ix.language.hasStaticImports = false → ∀ i ∈ imports, i.isStatic = false) :
    StaticTargetsRegistered ix (imports.map (resolveImport ix importer)) := by
  intro i hi _ hiStatic t ht
  obtain ⟨j, hj, rfl⟩ := List.mem_map.mp hi
  obtain ⟨htargets, hsame⟩ := resolveImport_eq ix importer j
  rw [htargets] at ht
  cases hl : ix.language.hasStaticImports with
  | true => exact importTargets_registered h hl ht
  | false =>
    rw [hsame, hstatic hl j hj] at hiStatic
    cases hiStatic

end SourceAtlas.Resolve
