import SourceAtlas.Proofs.Json.RoundTrip
import SourceAtlas.Proofs.Model.Records

/-!
# Documents: what is written is read again

A document that can be stored is read again from its text, in its stored form, exactly if the value
that is written nests within the limit of the reader (`Document.read?_toText`). The form of the text
decides only about the data of the project, and its blanks about nothing.

The text holds every number as an integer, apart from those in free-form values. So all that is
asked of the free-form values is that their numbers are integers too, or are kept all the same.
-/

namespace SourceAtlas

/-! ## Exact values -/

namespace Json

@[simp] theorem isExact_null : IsExact .null := by
  simp [IsExact, numbers]

@[simp] theorem isExact_bool (b : Bool) : IsExact (.bool b) := by
  simp [IsExact, numbers]

@[simp] theorem isExact_str (s : String) : IsExact (.str s) := by
  simp [IsExact, numbers]

/-- Counts are written as integers of 64 bits, and these are kept. -/
@[simp] theorem isExact_ofNat {n : Nat} (h : n ≤ Text.maxUnsigned) : IsExact (.ofNat n) := by
  intro k hk
  rw [ofNat, numbers, List.mem_singleton] at hk
  rw [hk]
  refine isKept_int ⟨?_, ?_⟩ <;> omega

/-- An array is exact if its items are. -/
@[simp] theorem isExact_arr_iff {items : List Json} :
    IsExact (.arr items) ↔ ∀ v ∈ items, v.IsExact := by
  constructor
  · exact fun h v hv => Layout.isExact_of_mem_arr h hv
  · intro h n hn
    obtain ⟨v, hv, hn⟩ := mem_numbers_arr.mp hn
    exact h v hv n hn

/-- An object is exact if its values are. -/
@[simp] theorem isExact_obj_iff {members : List (String × Json)} :
    IsExact (.obj members) ↔ ∀ e ∈ members, e.2.IsExact := by
  constructor
  · exact fun h e he => Layout.isExact_of_mem_obj h he
  · intro h n hn
    obtain ⟨e, he, hn⟩ := mem_numbers_obj.mp hn
    exact h e he n hn

@[simp] theorem isExact_ofStrings (items : List String) : IsExact (.ofStrings items) := by
  simp [ofStrings]

@[simp] theorem isExact_ofOption (o : Option String) : IsExact (.ofOption o) := by
  cases o <;> simp [ofOption]

/-- A free-form value is exact if its floating point numbers are kept. -/
theorem IsStorable.isExact {v : Json} (h : v.IsStorable)
    (hkept : ∀ n ∈ v.numbers, n.isInt = true ∨ n.IsKept) : v.IsExact := by
  intro n hn
  cases n with
  -- integers of 64 bits are kept anyway
  | int i => exact isKept_int (h.fits _ hn)
  | real x => exact (hkept _ hn).resolve_left Bool.false_ne_true

end Json

/-! ## Numbers of records -/

/-- Free-form data whose numbers are kept. -/
def Enrichment.IsExact (e : Enrichment) : Prop :=
  ∀ m, e.metadata = some m → m.IsExact

/-- What was added to a node holds no other numbers than those of its free-form data. -/
theorem Enrichment.isExact_members {e : Enrichment} (h : e.IsExact) :
    ∀ entry ∈ e.members, entry.2.IsExact := by
  unfold IsExact at h
  obtain ⟨description, roles, metadata⟩ := e
  cases description <;> cases roles <;> cases metadata <;> simp_all [members]

/-- The value of a class is exact: its numbers are two lines, and those of its free-form data. -/
theorem ClassDecl.isExact_toJson {c : ClassDecl} (hstart : c.startLine ≤ 0xFFFFFFFF)
    (hend : c.endLine ≤ 0xFFFFFFFF) (he : c.enrichment.IsExact) : c.toJson.IsExact := by
  have hstart' : c.startLine ≤ Text.maxUnsigned := Nat.le_trans hstart (by decide)
  have hend' : c.endLine ≤ Text.maxUnsigned := Nat.le_trans hend (by decide)
  have hmembers := Enrichment.isExact_members he
  unfold toJson
  rw [Json.isExact_obj_iff, List.forall_mem_append]
  refine ⟨?_, hmembers⟩
  simp [hstart', hend', Property.toJson]

/-- The value of a function is exact in the same way. -/
theorem FunctionDecl.isExact_toJson {f : FunctionDecl} (hstart : f.startLine ≤ 0xFFFFFFFF)
    (hend : f.endLine ≤ 0xFFFFFFFF) (he : f.enrichment.IsExact) : f.toJson.IsExact := by
  have hstart' : f.startLine ≤ Text.maxUnsigned := Nat.le_trans hstart (by decide)
  have hend' : f.endLine ≤ Text.maxUnsigned := Nat.le_trans hend (by decide)
  have hmembers := Enrichment.isExact_members he
  unfold toJson toJsonWith
  rw [Json.isExact_obj_iff, List.forall_mem_append]
  refine ⟨?_, hmembers⟩
  cases f.className <;> simp [hstart', hend', CallSite.toJson]

/-- The value of a file is exact if those of its classes and functions are. -/
theorem FileRecord.isExact_toJson {f : FileRecord} (hcounts : f.CountsFit)
    (he : ∀ e ∈ f.enrichments, e.IsExact) : f.toJson.IsExact := by
  have hclasses : ∀ c ∈ f.classes, c.toJson.IsExact := fun c hc =>
    ClassDecl.isExact_toJson (hcounts.classes c hc).1 (hcounts.classes c hc).2
      (he _ (List.mem_cons_of_mem _ (List.mem_append_left _ (List.mem_map_of_mem hc))))
  have hfunctions : ∀ g ∈ f.functions, g.toJson.IsExact := fun g hg =>
    FunctionDecl.isExact_toJson (hcounts.functions g hg).1 (hcounts.functions g hg).2
      (he _ (List.mem_cons_of_mem _ (List.mem_append_right _ (List.mem_map_of_mem hg))))
  -- the first of the additions is that to the file itself
  have hmembers := Enrichment.isExact_members (he _ List.mem_cons_self)
  unfold toJson
  rw [Json.isExact_obj_iff, List.forall_mem_append]
  refine ⟨?_, hmembers⟩
  simpa [hcounts.lines, Import.toJson] using And.intro hclasses hfunctions

/-- The value of project data is exact: it holds counts, and the data of configuration files. -/
theorem ProjectData.isExact_toJson {p : ProjectData} (hcounts : p.CountsFit)
    (hvalues : ∀ f ∈ p.configFiles, f.metadata.IsExact) : p.toJson.IsExact := by
  have hlanguages : ∀ e ∈ (p.languages.map (·.toJson)).entries, e.2.IsExact := by
    intro e he
    obtain ⟨entry, hentry, rfl⟩ := List.mem_map.mp he
    have h := hcounts.languages entry hentry
    simp [LanguageSummary.toJson, h.files, h.classes, h.functions, h.failedFiles, h.unchangedFiles]
  unfold toJson
  simpa [hcounts.totalFiles, hcounts.totalClasses, hcounts.totalFunctions, hcounts.totalLines,
    hcounts.totalCalls, hcounts.resolvedCalls, BuildTool.toJson, Dependency.toJson,
    ConfigFile.toJson] using And.intro hlanguages hvalues

/-! ## Documents -/

namespace Document

/-- The counts of a document fit the widths they are stored in. -/
structure CountsFit (d : Document) : Prop where
  project : d.project.CountsFit
  files : ∀ f ∈ d.files, f.CountsFit

instance (d : Document) : Decidable d.CountsFit :=
  decidable_of_iff (d.project.CountsFit ∧ ∀ f ∈ d.files, f.CountsFit)
    ⟨fun h => ⟨h.1, h.2⟩, fun h => ⟨h.project, h.files⟩⟩

/-- What was added to the nodes of a document. -/
def enrichments (d : Document) : List Enrichment :=
  d.files.flatMap (·.enrichments)

/-- The free-form values of a document. -/
def freeForm (d : Document) : List Json :=
  d.enrichments.filterMap (·.metadata) ++ d.project.configFiles.map (·.metadata)

/-- A document whose values are all of the widths and in the forms that texts have. -/
structure IsStorable (d : Document) : Prop where
  counts : d.CountsFit
  time : d.project.generatedAt.IsValid
  enrichments : ∀ e ∈ d.enrichments, e.IsStorable
  configFiles : ∀ f ∈ d.project.configFiles, f.metadata.IsStorable

/-- The numbers in the free-form values of a document are integers, or floating point numbers that
are kept. An integer that 64 bits do not hold is a floating point number here. -/
def NumbersKept (d : Document) : Prop :=
  ∀ v ∈ d.freeForm, ∀ n ∈ v.numbers, n.isInt = true ∨ n.IsKept

instance (d : Document) : Decidable d.NumbersKept :=
  inferInstanceAs (Decidable (∀ v ∈ d.freeForm, ∀ n ∈ v.numbers, n.isInt = true ∨ n.IsKept))

section

variable {d : Document}

/-- What was added in a file was added in the document. -/
theorem mem_enrichments {f : FileRecord} (hf : f ∈ d.files) {e : Enrichment}
    (he : e ∈ f.enrichments) : e ∈ d.enrichments :=
  List.mem_flatMap.mpr ⟨f, hf, he⟩

/-! ### Values of documents -/

/-- The files of a document are read again, each in its stored form. -/
theorem list?_files (h : d.IsStorable) :
    Json.list? FileRecord.ofJson? (.arr (d.files.map (·.toJson))) = some d.stored.files :=
  Json.list?_map fun f hf => FileRecord.ofJson?_toJson (h.counts.files f hf)
    fun e he => h.enrichments e (mem_enrichments hf he)

/-- The value of a document is read as the document in its stored form. -/
theorem ofJson?_toJson (h : d.IsStorable) : ofJson? d.toJson = some d.stored := by
  have hproject : ProjectData.ofJson? d.project.toJson = some d.project :=
    ProjectData.ofJson?_toJson h.counts.project h.time h.configFiles
  unfold ofJson? toJson
  rw [Json.recordFields?_obj (by simp)]
  simp [Json.slotOf, List.lookup_cons, Json.Slot.required, hproject, list?_files h, stored]

/-- A list of files is no document: its first item would have to be the data of the project. -/
theorem ofJson?_files (files : List FileRecord) : ofJson? (.arr (files.map (·.toJson))) = none := by
  cases files with
  | nil => rfl
  | cons f rest =>
    unfold ofJson?
    cases hget : (Json.arr ((f :: rest).map (·.toJson))).recordFields?
        ["projectMetaData", "files"] with
    | none => rfl
    | some get =>
      -- a list is read by the order of the fields, so the first file stands for the data of the
      -- project
      have hfirst : get "projectMetaData" = .given f.toJson := by
        unfold Json.recordFields? at hget
        dsimp only at hget
        split at hget
        · cases hget
        · obtain rfl := Option.some.inj hget
          rfl
      dsimp only [Option.bind_eq_bind, Option.bind_some]
      rw [hfirst, Json.Slot.required, ProjectData.ofJson?_file, Option.bind_none]

/-- The value of a document in the form that the settings ask for. -/
def written (o : OutputConfig) (d : Document) : Json :=
  if o.legacyArray then .arr (d.files.map (·.toJson)) else d.toJson

/-- The settings decide about the form of the value first, and then about its layout. -/
theorem toText_eq (o : OutputConfig) (d : Document) :
    d.toText o = if o.pretty then (d.written o).pretty else (d.written o).compact :=
  rfl

/-- What is left of a document that is written in this form and read at a time. -/
def kept (o : OutputConfig) (now : Instant) (d : Document) : Document :=
  if o.legacyArray then { project := { name := "", generatedAt := now }, files := d.stored.files }
  else d.stored

/-- Whatever the form, the value that is written is read as what the form keeps. -/
theorem ofJson?_written (h : d.IsStorable) (o : OutputConfig) (now : Instant) :
    (Stored.ofJson? (d.written o)).map (·.toDocument now) = some (d.kept o now) := by
  unfold written kept Stored.ofJson?
  cases o.legacyArray with
  | false =>
    simp only [Bool.false_eq_true, if_false]
    rw [ofJson?_toJson h]
    rfl
  | true =>
    simp only [if_true]
    -- the current form is tried first, and fails on a list of files
    rw [ofJson?_files, list?_files h]
    rfl

/-- The value that is written is exact, in either form. -/
theorem isExact_written (h : d.IsStorable) (hkept : d.NumbersKept) (o : OutputConfig) :
    (d.written o).IsExact := by
  have hfiles : ∀ f ∈ d.files, f.toJson.IsExact := by
    intro f hf
    refine FileRecord.isExact_toJson (h.counts.files f hf) fun e he m hm => ?_
    -- what was added to a node is among the free-form values of the document
    have hmem : m ∈ d.freeForm :=
      List.mem_append_left _ (List.mem_filterMap.mpr ⟨e, mem_enrichments hf he, hm⟩)
    exact (h.enrichments e (mem_enrichments hf he) m hm).1.isExact (hkept m hmem)
  have hproject : d.project.toJson.IsExact := by
    refine ProjectData.isExact_toJson h.counts.project fun f hf => ?_
    have hmem : f.metadata ∈ d.freeForm := List.mem_append_right _ (List.mem_map_of_mem hf)
    exact (h.configFiles f hf).isExact (hkept f.metadata hmem)
  unfold written toJson
  split <;> simpa [hproject] using hfiles

/--
The text of a document is read again if it nests within the limit, and only then. Whether it is on
one line or on many makes no difference.
-/
theorem read?_toText (h : d.IsStorable) (hkept : d.NumbersKept) (o : OutputConfig) (now : Instant) :
    read? now (d.toText o)
      = if (d.written o).depth ≤ Json.maxDepth then some (d.kept o now) else none := by
  have hexact := isExact_written h hkept o
  have hread : Json.read? (d.toText o)
      = if (d.written o).depth ≤ Json.maxDepth then some (d.written o) else none := by
    rw [toText_eq]
    split
    · exact Json.read?_pretty hexact
    · exact Json.read?_compact hexact
  unfold read? Stored.read?
  rw [hread]
  split
  · exact ofJson?_written h o now
  · rfl

end

/-- The texts of a document `d` are read as the document `e`. -/
structure ReadsAs (d e : Document) : Prop where
  /-- A text with all data is read as the whole, one with the files only as the files. -/
  read : ∀ (o : OutputConfig) (now : Instant), (d.written o).depth ≤ Json.maxDepth →
    ∃ d', read? now (d.toText o) = some d'
      ∧ if o.legacyArray then d'.files = e.files else d' = e
  tooDeep : ∀ (o : OutputConfig) (now : Instant), Json.maxDepth < (d.written o).depth →
    read? now (d.toText o) = none
  layout : ∀ (o : OutputConfig) (now : Instant),
    read? now (d.toText { o with pretty := true })
      = read? now (d.toText { o with pretty := false })

/-- A document that can be stored, and whose numbers are kept, is read in its stored form. -/
theorem readsAs_stored {d : Document} (h : d.IsStorable) (hkept : d.NumbersKept) :
    d.ReadsAs d.stored where
  read := by
    intro o now hdepth
    refine ⟨d.kept o now, ?_, ?_⟩
    · rw [read?_toText h hkept, if_pos hdepth]
    · unfold kept
      split <;> rfl
  tooDeep := by
    intro o now hdepth
    rw [read?_toText h hkept, if_neg (by omega)]
  layout := by
    intro o now
    rw [read?_toText h hkept, read?_toText h hkept]
    rfl

end Document

end SourceAtlas
