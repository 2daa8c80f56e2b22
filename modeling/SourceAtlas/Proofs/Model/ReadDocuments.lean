import SourceAtlas.Proofs.Model.Documents

/-!
# Documents: what is read can be written

A document that was read from a text can be stored (`Document.wasRead_of_read?`): its counts are of
the widths that were checked, its time is one that there is, and its free-form values were
brought to canonical form. It has nothing that a text does not keep (`Document.WasRead.stored`).

Each record is inverted once. The values of its fields stand in the value it is read from, so their
numbers fit if those of the whole text do.
-/

namespace SourceAtlas

namespace Json

/-! ## Values of fields -/

/-- The numbers of a value are those that 64 bits hold. -/
def Fits (v : Json) : Prop :=
  ∀ n ∈ v.numbers, n.Fits

/-- A value is storable once it is brought to canonical form. -/
theorem isStorable_canonical {v : Json} (h : v.Fits) : v.canonical.IsStorable :=
  ⟨canonical_canonical v, fun n hn => h n (mem_numbers_canonical hn)⟩

/-- The canonical form is null only of null. -/
theorem canonical_ne_null {v : Json} (h : v ≠ .null) : v.canonical ≠ .null := by
  cases v with
  | null => exact absurd rfl h
  | bool | num | str | arr | obj => simp [canonical]

theorem fits_of_mem_arr {items : List Json} (h : (Json.arr items).Fits) {v : Json}
    (hv : v ∈ items) : v.Fits :=
  fun n hn => h n (mem_numbers_arr.mpr ⟨v, hv, hn⟩)

theorem fits_of_mem_obj {members : List (String × Json)} (h : (Json.obj members).Fits)
    {e : String × Json} (he : e ∈ members) : e.2.Fits :=
  fun n hn => h n (mem_numbers_obj.mpr ⟨e, he, hn⟩)

/-- A number that is read is within the limit. -/
theorem le_of_natUpTo? {limit n : Nat} {v : Json} (h : v.natUpTo? limit = some n) : n ≤ limit := by
  unfold natUpTo? at h
  split at h
  · split at h
    · rename_i hle
      exact Option.some.inj h ▸ hle.2
    · cases h
  · cases h

/-- What holds of each item that is read holds of all in a list. -/
theorem forall_of_list? {α : Type} {read? : Json → Option α} {P : α → Prop} {v : Json}
    {values : List α} (hv : v.Fits) (h : list? read? v = some values)
    (hread : ∀ w a, w.Fits → read? w = some a → P a) : ∀ a ∈ values, P a := by
  unfold list? at h
  split at h
  · exact Traversal.forall_of_mapM h fun w hw a ha => hread w a (fits_of_mem_arr hv hw) ha
  · cases h

/-! ## Fields -/

namespace Slot

variable {α : Type} {read? : Json → Option α} {s : Slot}

/-- The numbers of what is given fit. -/
def Fits (s : Slot) : Prop :=
  ∀ w, s = .given w → w.Fits

theorem le_of_required {limit n : Nat} (h : s.required (natUpTo? limit) = some n) : n ≤ limit := by
  cases s with
  | given w => exact le_of_natUpTo? h
  | absent | beyondEnd => cases h

/-- What holds of all values that are read holds of a field that is required. -/
theorem of_required {a : α} {P : α → Prop} (hs : s.Fits) (h : s.required read? = some a)
    (hread : ∀ w, w.Fits → read? w = some a → P a) : P a := by
  cases s with
  | given w => exact hread w (hs w rfl) h
  | absent | beyondEnd => cases h

/-- A field that may be left out has a default for that. -/
theorem of_orElse {a default : α} {P : α → Prop} (hs : s.Fits) (h : s.orElse read? default = some a)
    (hdefault : P default) (hread : ∀ w, w.Fits → read? w = some a → P a) : P a := by
  cases s with
  | given w => exact hread w (hs w rfl) h
  | absent | beyondEnd => exact Option.some.inj h ▸ hdefault

/-- What holds of each item holds of all in a list, which is empty where it is left out. -/
theorem forall_of_orElse {values : List α} {P : α → Prop} (hs : s.Fits)
    (h : s.orElse (list? read?) [] = some values)
    (hread : ∀ w a, w.Fits → read? w = some a → P a) : ∀ a ∈ values, P a :=
  of_orElse hs h (P := fun values => ∀ a ∈ values, P a) (by simp)
    fun _ hw hvalues => forall_of_list? hw hvalues hread

/-- Free-form data that is given and not null is kept in canonical form. -/
theorem of_optional_canonical {o : Option Json} (hs : s.Fits)
    (h : s.optional (fun v => some v.canonical) = some o) {m : Json} (hm : o = some m) :
    m.IsStorable ∧ m ≠ .null := by
  cases s with
  | given w =>
    -- null stands for nothing given, so it is not kept
    by_cases hnull : w = .null
    · subst hnull
      obtain rfl : none = o := Option.some.inj h
      cases hm
    · rw [optional_given hnull, hm] at h
      obtain rfl : w.canonical = m := Option.some.inj (Option.some.inj h)
      exact ⟨isStorable_canonical (hs w rfl), canonical_ne_null hnull⟩
  | absent =>
    obtain rfl : none = o := Option.some.inj h
    cases hm
  | beyondEnd => cases h

end Slot

/-- What is looked up stands in the list. -/
theorem mem_of_lookup {entries : List (String × Json)} {name : String} {w : Json}
    (h : entries.lookup name = some w) : (name, w) ∈ entries := by
  obtain ⟨before, after, rfl, -⟩ := List.lookup_eq_some_iff.mp h
  simp

/-- The numbers of a field are among those of its object. -/
theorem fits_of_objectFields? {names : List String} {v : Json} {get : String → Slot}
    (hv : v.Fits) (h : v.objectFields? names = some get) (name : String) : (get name).Fits := by
  cases v with
  | obj members =>
    change (if repeats names members then none else some (slotOf members)) = some get at h
    split at h
    · cases h
    · obtain rfl := Option.some.inj h
      intro w hw
      cases hlookup : members.lookup name with
      | none => simp [slotOf, hlookup] at hw
      | some w' =>
        obtain rfl : w' = w := by simpa [slotOf, hlookup] using hw
        exact fits_of_mem_obj hv (mem_of_lookup hlookup)
  | null | bool | num | str | arr => cases h

/-- The same for a record, which may also be written as a list of its values. -/
theorem fits_of_recordFields? {names : List String} {v : Json} {get : String → Slot}
    (hv : v.Fits) (h : v.recordFields? names = some get) (name : String) : (get name).Fits := by
  cases v with
  | arr items =>
    change (if names.length < items.length then none
      else some fun name => (((names.zip items).lookup name).map Slot.given).getD .beyondEnd)
        = some get at h
    split at h
    · cases h
    · obtain rfl := Option.some.inj h
      intro w hw
      cases hlookup : (names.zip items).lookup name with
      | none => simp [hlookup] at hw
      | some w' =>
        obtain rfl : w' = w := by simpa [hlookup] using hw
        exact fits_of_mem_arr hv (List.of_mem_zip (mem_of_lookup hlookup)).2
  | obj members =>
    have hobject : (Json.obj members).objectFields? names = some get := h
    exact fits_of_objectFields? hv hobject name
  | null | bool | num | str => cases h

end Json

/-! ## Records -/

/-- A call that was read has nothing but what is stored. -/
theorem CallSite.stored_of_ofJson? {v : Json} {c : CallSite} (h : ofJson? v = some c) :
    c.stored = c := by
  unfold ofJson? at h
  obtain ⟨get, -, h⟩ := Option.bind_eq_some_iff.mp h
  obtain ⟨name, -, h⟩ := Option.bind_eq_some_iff.mp h
  obtain ⟨path, -, h⟩ := Option.bind_eq_some_iff.mp h
  obtain rfl := Option.some.inj h
  rfl

/-- Nor has an import. -/
theorem Import.stored_of_ofJson? {v : Json} {i : Import} (h : ofJson? v = some i) :
    i.stored = i := by
  unfold ofJson? at h
  obtain ⟨get, -, h⟩ := Option.bind_eq_some_iff.mp h
  obtain ⟨source, -, h⟩ := Option.bind_eq_some_iff.mp h
  obtain ⟨kind, -, h⟩ := Option.bind_eq_some_iff.mp h
  obtain ⟨path, -, h⟩ := Option.bind_eq_some_iff.mp h
  obtain rfl := Option.some.inj h
  rfl

/-- What was added to a node that was read can be stored. -/
theorem Enrichment.isStorable_of_ofFields? {get : String → Json.Slot}
    (hget : ∀ name, (get name).Fits) {e : Enrichment} (h : ofFields? get = some e) :
    e.IsStorable := by
  unfold ofFields? at h
  obtain ⟨description, -, h⟩ := Option.bind_eq_some_iff.mp h
  obtain ⟨roles, -, h⟩ := Option.bind_eq_some_iff.mp h
  obtain ⟨metadata, hmetadata, h⟩ := Option.bind_eq_some_iff.mp h
  obtain rfl := Option.some.inj h
  exact fun m hm => Json.Slot.of_optional_canonical (hget _) hmetadata hm

/-- The lines of a class that was read fit, and what was added to it can be stored. -/
theorem ClassDecl.of_ofJson? {v : Json} {c : ClassDecl} (hv : v.Fits) (h : ofJson? v = some c) :
    (c.startLine ≤ 0xFFFFFFFF ∧ c.endLine ≤ 0xFFFFFFFF) ∧ c.enrichment.IsStorable := by
  unfold ofJson? at h
  obtain ⟨get, hget, h⟩ := Option.bind_eq_some_iff.mp h
  -- the fields before the lines do not matter here
  iterate 10 obtain ⟨_, -, h⟩ := Option.bind_eq_some_iff.mp h
  obtain ⟨startLine, hstart, h⟩ := Option.bind_eq_some_iff.mp h
  obtain ⟨endLine, hend, h⟩ := Option.bind_eq_some_iff.mp h
  obtain ⟨enrichment, henrichment, h⟩ := Option.bind_eq_some_iff.mp h
  obtain rfl := Option.some.inj h
  exact ⟨⟨Json.Slot.le_of_required hstart, Json.Slot.le_of_required hend⟩,
    Enrichment.isStorable_of_ofFields? (Json.fits_of_objectFields? hv hget) henrichment⟩

/-- The same of a function, which is also as it is stored. -/
theorem FunctionDecl.of_ofJson? {v : Json} {f : FunctionDecl} (hv : v.Fits)
    (h : ofJson? v = some f) :
    (f.startLine ≤ 0xFFFFFFFF ∧ f.endLine ≤ 0xFFFFFFFF) ∧ f.enrichment.IsStorable
      ∧ f.stored = f := by
  unfold ofJson? at h
  obtain ⟨get, hget, h⟩ := Option.bind_eq_some_iff.mp h
  iterate 5 obtain ⟨_, -, h⟩ := Option.bind_eq_some_iff.mp h
  obtain ⟨startLine, hstart, h⟩ := Option.bind_eq_some_iff.mp h
  obtain ⟨endLine, hend, h⟩ := Option.bind_eq_some_iff.mp h
  obtain ⟨calls, hcalls, h⟩ := Option.bind_eq_some_iff.mp h
  obtain ⟨enrichment, henrichment, h⟩ := Option.bind_eq_some_iff.mp h
  obtain rfl := Option.some.inj h
  have hfits := Json.fits_of_objectFields? hv hget
  have hstored : calls.map CallSite.stored = calls :=
    Traversal.map_eq_self (Json.Slot.forall_of_orElse (hfits _) hcalls
      fun _ _ _ hc => CallSite.stored_of_ofJson? hc)
  refine ⟨⟨Json.Slot.le_of_required hstart, Json.Slot.le_of_required hend⟩,
    Enrichment.isStorable_of_ofFields? hfits henrichment, ?_⟩
  unfold stored
  dsimp only
  rw [hstored]

/-- What is known of a file that was read. -/
structure FileRecord.WasRead (f : FileRecord) : Prop where
  counts : f.CountsFit
  enrichments : ∀ e ∈ f.enrichments, e.IsStorable
  stored : f.stored = f

/-- A file that was read has been checked field by field. -/
theorem FileRecord.wasRead_of_ofJson? {v : Json} {f : FileRecord} (hv : v.Fits)
    (h : ofJson? v = some f) : f.WasRead := by
  unfold ofJson? at h
  obtain ⟨get, hget, h⟩ := Option.bind_eq_some_iff.mp h
  iterate 2 obtain ⟨_, -, h⟩ := Option.bind_eq_some_iff.mp h
  obtain ⟨lines, hlines, h⟩ := Option.bind_eq_some_iff.mp h
  obtain ⟨imports, himports, h⟩ := Option.bind_eq_some_iff.mp h
  iterate 2 obtain ⟨_, -, h⟩ := Option.bind_eq_some_iff.mp h
  obtain ⟨classes, hclasses, h⟩ := Option.bind_eq_some_iff.mp h
  obtain ⟨functions, hfunctions, h⟩ := Option.bind_eq_some_iff.mp h
  obtain ⟨enrichment, henrichment, h⟩ := Option.bind_eq_some_iff.mp h
  obtain rfl := Option.some.inj h
  have hfits := Json.fits_of_objectFields? hv hget
  have himports' := Json.Slot.forall_of_orElse (hfits _) himports
    fun _ _ _ hi => Import.stored_of_ofJson? hi
  have hclasses' := Json.Slot.forall_of_orElse (hfits _) hclasses
    fun _ _ hw hc => ClassDecl.of_ofJson? hw hc
  have hfunctions' := Json.Slot.forall_of_orElse (hfits _) hfunctions
    fun _ _ hw hg => FunctionDecl.of_ofJson? hw hg
  constructor
  · exact ⟨Json.Slot.le_of_required hlines, fun c hc => (hclasses' c hc).1,
      fun g hg => (hfunctions' g hg).1⟩
  · -- what was added to the file itself, to its classes and to its functions
    intro e he
    rcases List.mem_cons.mp he with rfl | he
    · exact Enrichment.isStorable_of_ofFields? hfits henrichment
    rcases List.mem_append.mp he with he | he
    · obtain ⟨c, hc, rfl⟩ := List.mem_map.mp he
      exact (hclasses' c hc).2
    · obtain ⟨g, hg, rfl⟩ := List.mem_map.mp he
      exact (hfunctions' g hg).2.1
  · unfold stored
    dsimp only
    rw [Traversal.map_eq_self himports', Traversal.map_eq_self fun g hg => (hfunctions' g hg).2.2]

theorem FileRecord.wasRead_of_list? {v : Json} {files : List FileRecord} (hv : v.Fits)
    (h : Json.list? ofJson? v = some files) : ∀ f ∈ files, f.WasRead :=
  Json.forall_of_list? hv h fun _ _ hw hf => wasRead_of_ofJson? hw hf

/-! ## The data of the project -/

/-- The free-form data of a configuration file, or null in its place, can be stored. -/
theorem ConfigFile.isStorable_of_ofJson? {v : Json} {f : ConfigFile} (hv : v.Fits)
    (h : ofJson? v = some f) : f.metadata.IsStorable := by
  unfold ofJson? at h
  obtain ⟨get, hget, h⟩ := Option.bind_eq_some_iff.mp h
  obtain ⟨path, -, h⟩ := Option.bind_eq_some_iff.mp h
  obtain ⟨kind, -, h⟩ := Option.bind_eq_some_iff.mp h
  obtain ⟨metadata, hmetadata, h⟩ := Option.bind_eq_some_iff.mp h
  obtain rfl := Option.some.inj h
  refine Json.Slot.of_orElse (Json.fits_of_recordFields? hv hget _) hmetadata ?_ ?_
  · exact Json.isStorable_canonical (v := .null) (by simp [Json.Fits, Json.numbers])
  · intro w hw hcanonical
    exact Option.some.inj hcanonical ▸ Json.isStorable_canonical hw

/-- The counts of a language that were read fit. -/
theorem LanguageSummary.countsFit_of_ofJson? {v : Json} {s : LanguageSummary}
    (h : ofJson? v = some s) : s.CountsFit := by
  unfold ofJson? at h
  obtain ⟨get, -, h⟩ := Option.bind_eq_some_iff.mp h
  obtain ⟨files, hfiles, h⟩ := Option.bind_eq_some_iff.mp h
  obtain ⟨classes, hclasses, h⟩ := Option.bind_eq_some_iff.mp h
  obtain ⟨functions, hfunctions, h⟩ := Option.bind_eq_some_iff.mp h
  obtain ⟨failedFiles, hfailed, h⟩ := Option.bind_eq_some_iff.mp h
  obtain ⟨unchangedFiles, hunchanged, h⟩ := Option.bind_eq_some_iff.mp h
  obtain rfl := Option.some.inj h
  exact ⟨Json.Slot.le_of_required hfiles, Json.Slot.le_of_required hclasses,
    Json.Slot.le_of_required hfunctions, Json.Slot.le_of_required hfailed,
    Json.Slot.le_of_required hunchanged⟩

theorem LanguageSummary.countsFit_of_dictOfJson? {v : Json} {d : Dict LanguageSummary}
    (h : dictOfJson? v = some d) : ∀ e ∈ d.entries, e.2.CountsFit := by
  unfold dictOfJson? at h
  split at h
  · obtain ⟨entries, hentries, h⟩ := Option.bind_eq_some_iff.mp h
    obtain rfl := Option.some.inj h
    have hall : ∀ e ∈ entries, e.2.CountsFit := by
      refine Traversal.forall_of_mapM hentries fun member _ e he => ?_
      obtain ⟨s, hs, rfl⟩ := Option.map_eq_some_iff.mp he
      exact countsFit_of_ofJson? hs
    intro e he
    -- an entry of the dictionary is one of those it is made from
    have hfind : (Dict.ofList entries).find? e.1 = some e.2 := Dict.find?_eq_some_iff_mem.mpr he
    exact hall _ (Dict.mem_of_find?_ofList hfind)
  · cases h

/-- What is known of project data that was read. -/
structure ProjectData.WasRead (p : ProjectData) : Prop where
  counts : p.CountsFit
  time : p.generatedAt.IsValid
  configFiles : ∀ f ∈ p.configFiles, f.metadata.IsStorable

/-- Project data that was read has been checked field by field. -/
theorem ProjectData.wasRead_of_ofJson? {v : Json} {p : ProjectData} (hv : v.Fits)
    (h : ofJson? v = some p) : p.WasRead := by
  unfold ofJson? at h
  obtain ⟨get, hget, h⟩ := Option.bind_eq_some_iff.mp h
  obtain ⟨name, -, h⟩ := Option.bind_eq_some_iff.mp h
  obtain ⟨generatedAt, htime, h⟩ := Option.bind_eq_some_iff.mp h
  obtain ⟨totalFiles, hfiles, h⟩ := Option.bind_eq_some_iff.mp h
  obtain ⟨totalClasses, hclasses, h⟩ := Option.bind_eq_some_iff.mp h
  obtain ⟨totalFunctions, hfunctions, h⟩ := Option.bind_eq_some_iff.mp h
  obtain ⟨totalLines, hlines, h⟩ := Option.bind_eq_some_iff.mp h
  obtain ⟨totalCalls, hcalls, h⟩ := Option.bind_eq_some_iff.mp h
  obtain ⟨resolvedCalls, hresolved, h⟩ := Option.bind_eq_some_iff.mp h
  obtain ⟨languages, hlanguages, h⟩ := Option.bind_eq_some_iff.mp h
  iterate 2 obtain ⟨_, -, h⟩ := Option.bind_eq_some_iff.mp h
  obtain ⟨configFiles, hconfig, h⟩ := Option.bind_eq_some_iff.mp h
  obtain rfl := Option.some.inj h
  have hfits := Json.fits_of_recordFields? hv hget
  have hlanguages' : ∀ e ∈ languages.entries, e.2.CountsFit := by
    refine Json.Slot.of_orElse (P := fun d => ∀ e ∈ d.entries, e.2.CountsFit) (hfits _)
      hlanguages ?_ fun _ _ hd => LanguageSummary.countsFit_of_dictOfJson? hd
    simp [Dict.empty]
  refine ⟨⟨Json.Slot.le_of_required hfiles, Json.Slot.le_of_required hclasses,
    Json.Slot.le_of_required hfunctions, Json.Slot.le_of_required hlines,
    Json.Slot.le_of_required hcalls, Json.Slot.le_of_required hresolved, hlanguages'⟩, ?_, ?_⟩
  · refine Json.Slot.of_required (hfits _) htime fun w _ hread => ?_
    obtain ⟨text, -, htext⟩ := Option.bind_eq_some_iff.mp hread
    exact Instant.isValid_of_read? htext
  · exact Json.Slot.forall_of_orElse (hfits _) hconfig
      fun _ _ hw hf => ConfigFile.isStorable_of_ofJson? hw hf

/-! ## Documents -/

namespace Document

/-- What is known of a document that was read. -/
structure WasRead (d : Document) : Prop where
  storable : d.IsStorable
  stored : d.stored = d

/-- A document was read if its files and the data of its project were. -/
theorem wasRead_of_files {d : Document} (hfiles : ∀ f ∈ d.files, f.WasRead)
    (hcounts : d.project.CountsFit) (htime : d.project.generatedAt.IsValid)
    (hconfig : ∀ f ∈ d.project.configFiles, f.metadata.IsStorable) : d.WasRead where
  storable.counts := ⟨hcounts, fun f hf => (hfiles f hf).counts⟩
  storable.time := htime
  storable.enrichments := by
    intro e he
    obtain ⟨f, hf, he⟩ := List.mem_flatMap.mp he
    exact (hfiles f hf).enrichments e he
  storable.configFiles := hconfig
  stored := by
    unfold Document.stored
    rw [Traversal.map_eq_self fun f hf => (hfiles f hf).stored]

/-- A document in its present form. -/
theorem wasRead_of_ofJson? {v : Json} {d : Document} (hv : v.Fits) (h : ofJson? v = some d) :
    d.WasRead := by
  unfold ofJson? at h
  obtain ⟨get, hget, h⟩ := Option.bind_eq_some_iff.mp h
  obtain ⟨project, hproject, h⟩ := Option.bind_eq_some_iff.mp h
  obtain ⟨files, hfiles, h⟩ := Option.bind_eq_some_iff.mp h
  obtain rfl := Option.some.inj h
  have hfits := Json.fits_of_recordFields? hv hget
  have hfiles' : ∀ f ∈ files, f.WasRead :=
    Json.Slot.of_required (P := fun files => ∀ f ∈ files, f.WasRead) (hfits _) hfiles
      fun _ hw hlist => FileRecord.wasRead_of_list? hw hlist
  obtain ⟨hcounts, htime, hconfig⟩ :=
    Json.Slot.of_required (P := ProjectData.WasRead) (hfits _) hproject
      fun _ hw hp => ProjectData.wasRead_of_ofJson? hw hp
  exact wasRead_of_files hfiles' hcounts htime hconfig

/-- The data of a project that has no name yet. -/
theorem wasRead_files {now : Instant} (hnow : now.IsValid) {files : List FileRecord}
    (hfiles : ∀ f ∈ files, f.WasRead) : ((Stored.files files).toDocument now).WasRead := by
  refine wasRead_of_files hfiles ?_ hnow ?_
  · constructor <;> simp [Stored.toDocument, Dict.empty]
  · simp [Stored.toDocument]

/-- A document that was read at a time that there is can be stored, and is stored as it is. -/
theorem wasRead_of_read? {now : Instant} (hnow : now.IsValid) {text : String} {d : Document}
    (h : read? now text = some d) : d.WasRead := by
  obtain ⟨stored, hstored, rfl⟩ := Option.map_eq_some_iff.mp h
  obtain ⟨v, hv, hstored⟩ := Option.bind_eq_some_iff.mp hstored
  have hfits : v.Fits := Json.fits_of_read? hv
  rcases Option.or_eq_some_iff.mp hstored with hstored | ⟨-, hstored⟩
  · -- a document
    obtain ⟨d, hd, rfl⟩ := Option.map_eq_some_iff.mp hstored
    exact wasRead_of_ofJson? hfits hd
  · -- or only a list of files, as older texts have it
    obtain ⟨files, hfiles, rfl⟩ := Option.map_eq_some_iff.mp hstored
    exact wasRead_files hnow (FileRecord.wasRead_of_list? hfits hfiles)

end Document

end SourceAtlas
