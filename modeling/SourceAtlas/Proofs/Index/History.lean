import SourceAtlas.Proofs.Index.Registered

/-!
# The reference index: what holds after any registrations

An index comes about by registering files one after another, each with what it declares or, if it
could not be parsed, by its path alone. `Index.ofEntries` is the index after such a history, and
`ofEntries_induction` the way to prove something of all of them:

* the language and the repository stay (`language_ofEntries`, `repository_ofEntries`);
* the index is closed (`closed_ofEntries`);
* no file is listed twice for a namespace (`namespacesDistinct_ofEntries`).
-/

namespace SourceAtlas.Index

/-- A file as it is registered: with what it declares, or by its path alone. -/
inductive Entry where
  | declared (x : Extraction)
  | bare (path : String)

def enter (ix : Index) : Entry → Index
  | .declared x => ix.add x
  | .bare path => ix.addFile path

/-- The index after some files are registered. -/
def ofEntries (l : Language) (r : Repository) (entries : List Entry) : Index :=
  entries.foldl enter (start l r)

theorem ofEntries_induction {motive : Index → Prop} {l : Language} {r : Repository}
    (start : motive (start l r)) (file : ∀ ix path, motive ix → motive (ix.addFile path))
    (declared : ∀ ix x, motive ix → motive (ix.add x)) (entries : List Entry) :
    motive (ofEntries l r entries) := by
  refine List.foldlRecOn entries enter (motive := motive) start fun ix hix entry _ => ?_
  cases entry with
  | declared x => exact declared ix x hix
  | bare path => exact file ix path hix

section Invariants

variable (l : Language) (r : Repository) (entries : List Entry)

theorem language_ofEntries : (ofEntries l r entries).language = l :=
  ofEntries_induction (motive := fun ix => ix.language = l) rfl (fun _ _ hix => hix)
    (fun ix x hix => (language_repository_add ix x).1.trans hix) entries

theorem repository_ofEntries : (ofEntries l r entries).repository = r :=
  ofEntries_induction (motive := fun ix => ix.repository = r) rfl (fun _ _ hix => hix)
    (fun ix x hix => (language_repository_add ix x).2.trans hix) entries

theorem closed_ofEntries : (ofEntries l r entries).Closed :=
  ofEntries_induction (.start l r) (fun _ path hix => hix.addFile path)
    (fun _ x hix => hix.add x) entries

end Invariants

/-! ## The files of a namespace -/

/-- No file is listed twice for a namespace. -/
def NamespacesDistinct (ix : Index) : Prop :=
  ∀ ns files, ix.filesByNamespace.find? ns = some files → files.Nodup

theorem NamespacesDistinct.filesInNamespace {ix : Index} (h : ix.NamespacesDistinct) (ns : String) :
    (ix.filesInNamespace ns).Nodup := by
  unfold Index.filesInNamespace
  cases hfiles : ix.filesByNamespace.find? (ix.key ns) with
  | none => exact List.nodup_nil
  | some files => exact h _ files hfiles

theorem NamespacesDistinct.addNamespace {ix : Index} (h : ix.NamespacesDistinct)
    (path ns : String) :
    (ix.addNamespace path ns).NamespacesDistinct := by
  intro key files hfind
  have hold := h.filesInNamespace ns
  unfold Index.addNamespace at hfind
  rw [Dict.find?_update] at hfind
  -- only the files of one namespace change, by one that is added if it is new
  split at hfind
  · rw [← Option.some.inj hfind]
    exact nodup_addNew hold path
  · exact h key files hfind

theorem NamespacesDistinct.add {ix : Index} (h : ix.NamespacesDistinct) (x : Extraction) :
    (ix.add x).NamespacesDistinct := by
  refine add_induction (motive := NamespacesDistinct) ix x h
    (fun _ ns hix => hix.addNamespace x.path ns) ?_ (fun _ _ hix => hix)
  -- registering a class leaves the table of namespaces alone
  intro ix' c hix
  obtain ⟨slots, qualified, members, heq⟩ := addClass_eq x ix' c
  rw [heq]
  exact hix

theorem namespacesDistinct_ofEntries (l : Language) (r : Repository) (entries : List Entry) :
    (ofEntries l r entries).NamespacesDistinct := by
  refine ofEntries_induction (motive := NamespacesDistinct) ?_ (fun _ _ hix => hix)
    (fun _ x hix => hix.add x) entries
  intro ns files hfind
  cases hfind

end SourceAtlas.Index
