import SourceAtlas.Model.Document
import SourceAtlas.Proofs.Dict
import SourceAtlas.Proofs.Instant
import SourceAtlas.Proofs.Json.Values
import SourceAtlas.Proofs.Traversal

/-!
# Records: what is written is read again

Every record is written as an object whose keys are all different, so a field is found under its
name (`objectFields?_obj`), and the record that is read from there has the values that were written.
What only resolution needs is not written: a record is read again in its stored form.
-/

namespace SourceAtlas

/-! ## Stored forms -/

/-- The call as the document keeps it. -/
def CallSite.stored (c : CallSite) : CallSite :=
  { name := c.name, path := c.path }

/-- The function as the document keeps it. -/
def FunctionDecl.stored (f : FunctionDecl) : FunctionDecl :=
  { f with calls := f.calls.map CallSite.stored }

/-- The file as the document keeps it. -/
def FileRecord.stored (f : FileRecord) : FileRecord :=
  { f with
    imports := f.imports.map Import.stored
    functions := f.functions.map FunctionDecl.stored }

/-- The document as its text keeps it. -/
def Document.stored (d : Document) : Document :=
  { d with files := d.files.map FileRecord.stored }

namespace Json

/-- A free-form value as a document keeps it: canonical, with numbers that 64 bits hold. -/
structure IsStorable (v : Json) : Prop where
  canonical : v.canonical = v
  fits : ∀ n ∈ v.numbers, n.Fits

/-! ## Values of fields -/

/-- A list whose items are read again is read again. -/
theorem list?_map {α β : Type} {read? : Json → Option β} {write : α → Json} {keep : α → β}
    {items : List α} (h : ∀ a ∈ items, read? (write a) = some (keep a)) :
    list? read? (.arr (items.map write)) = some (items.map keep) :=
  Traversal.mapM_map h

@[simp] theorem strings?_ofStrings (items : List String) :
    strings? (.ofStrings items) = some items := by
  have h : list? asString? (.arr (items.map Json.str)) = some (items.map id) :=
    list?_map fun _ _ => rfl
  rwa [List.map_id] at h

/-- A field that is given and not null is read. -/
theorem optional_given {α : Type} {v : Json} (h : v ≠ .null) (read? : Json → Option α) :
    (Slot.given v).optional read? = (read? v).map some := by
  cases v with
  | null => exact absurd rfl h
  | bool | num | str | arr | obj => rfl

@[simp] theorem optional_ofOption (o : Option String) :
    (Slot.given (.ofOption o)).optional asString? = some o := by
  cases o <;> rfl

/-- A number within the limit is read again. -/
theorem natUpTo?_ofNat {limit n : Nat} (h : n ≤ limit) : natUpTo? limit (.ofNat n) = some n := by
  have hcond : 0 ≤ (n : Int) ∧ (n : Int).toNat ≤ limit := by omega
  show (if 0 ≤ (n : Int) ∧ (n : Int).toNat ≤ limit then some (n : Int).toNat else none) = some n
  rw [if_pos hcond, Int.toNat_natCast]

/-! ## Fields of objects -/

/-- An object whose keys are all different repeats none of them. -/
theorem repeats_eq_false {members : List (String × Json)} (h : (members.map Prod.fst).Nodup)
    (names : List String) : repeats names members = false := by
  unfold repeats
  rw [List.any_eq_false]
  intro name _
  -- to be repeated is to be counted more than once
  have hcount : (members.filter (·.1 == name)).length = (members.map Prod.fst).count name := by
    rw [List.count, List.countP_map, List.countP_eq_length_filter]
    rfl
  have hle := List.nodup_iff_count_le_one.mp h name
  rw [decide_eq_true_eq, hcount]
  omega

/-- What an object says about a field: what stands under its name. -/
def slotOf (members : List (String × Json)) (name : String) : Slot :=
  ((members.lookup name).map Slot.given).getD .absent

/-- The fields of an object without repeated keys. -/
theorem objectFields?_obj {members : List (String × Json)} (h : (members.map Prod.fst).Nodup)
    (names : List String) : (Json.obj members).objectFields? names = some (slotOf members) := by
  show (if repeats names members = true then none else some (slotOf members)) = _
  rw [repeats_eq_false h]
  rfl

/-- A record that is written as an object is read as one. -/
theorem recordFields?_obj {members : List (String × Json)} (h : (members.map Prod.fst).Nodup)
    (names : List String) : (Json.obj members).recordFields? names = some (slotOf members) :=
  objectFields?_obj h names

end Json

/-! ## Choices -/

@[simp] theorem Visibility.ofName?_name (v : Visibility) : ofName? v.name = some v := by
  cases v <;> decide

@[simp] theorem ClassKind.ofName?_name (k : ClassKind) : ofName? k.name = some k := by
  cases k <;> decide

@[simp] theorem ClassModifier.ofName?_name (m : ClassModifier) : ofName? m.name = some m := by
  cases m <;> decide

@[simp] theorem FunctionKind.ofName?_name (k : FunctionKind) : ofName? k.name = some k := by
  cases k <;> decide

@[simp] theorem ImportKind.ofName?_name (k : ImportKind) : ofName? k.name = some k := by
  cases k <;> decide

/-! ## Records of fixed fields -/

open Json (Slot slotOf)

/-- A call is read again without what only resolution needs. -/
theorem CallSite.ofJson?_toJson (c : CallSite) : ofJson? c.toJson = some c.stored := by
  unfold ofJson? toJson
  rw [Json.recordFields?_obj (by simp)]
  simp [slotOf, List.lookup_cons, Slot.required, Json.asString?, stored]

/-- And so is an import. -/
theorem Import.ofJson?_toJson (i : Import) : ofJson? i.toJson = some i.stored := by
  unfold ofJson? toJson
  rw [Json.recordFields?_obj (by simp)]
  simp [slotOf, List.lookup_cons, Slot.required, Json.asString?, Json.choice?, stored]

theorem Property.ofJson?_toJson (p : Property) : ofJson? p.toJson = some p := by
  unfold ofJson? toJson
  rw [Json.recordFields?_obj (by simp)]
  simp [slotOf, List.lookup_cons, Slot.required, Json.asString?, Json.choice?, Json.bool?]

theorem BuildTool.ofJson?_toJson (t : BuildTool) : ofJson? t.toJson = some t := by
  unfold ofJson? toJson
  rw [Json.recordFields?_obj (by simp)]
  simp [slotOf, List.lookup_cons, Slot.required, Json.asString?]

theorem Dependency.ofJson?_toJson (d : Dependency) : ofJson? d.toJson = some d := by
  unfold ofJson? toJson
  rw [Json.recordFields?_obj (by simp)]
  simp [slotOf, List.lookup_cons, Slot.required, Json.asString?]

/-- The free-form data of a configuration file is read in canonical form, which it has. -/
theorem ConfigFile.ofJson?_toJson {f : ConfigFile} (h : f.metadata.IsStorable) :
    ofJson? f.toJson = some f := by
  unfold ofJson? toJson
  rw [Json.recordFields?_obj (by simp)]
  simp [slotOf, List.lookup_cons, Slot.required, Slot.orElse, Json.asString?, h.canonical]

/-! ## Enriched records

What was added to a node stands after its own members, under keys that are none of theirs. -/

namespace Enrichment

/-- Free-form data that can be stored, and that is left out rather than null. -/
def IsStorable (e : Enrichment) : Prop :=
  ∀ m, e.metadata = some m → m.IsStorable ∧ m ≠ .null

/-- What was added stands under some of the keys for it, in their order. -/
theorem keys_members_sublist (e : Enrichment) : (e.members.map Prod.fst).Sublist keys := by
  obtain ⟨description, roles, metadata⟩ := e
  unfold members keys
  cases description <;> cases roles <;> cases metadata <;> simp

/-- No key of a node is one of these, so all keys differ. -/
theorem keys_nodup_append {fixed : List (String × Json)} (h : (fixed.map Prod.fst ++ keys).Nodup)
    (e : Enrichment) : ((fixed ++ e.members).map Prod.fst).Nodup := by
  rw [List.map_append]
  exact h.sublist (List.Sublist.append_left e.keys_members_sublist _)

/-- Under a key of the node nothing is found among what was added. -/
theorem lookup_members_eq_none {key : String} (h : key ∉ keys) (e : Enrichment) :
    e.members.lookup key = none := by
  rw [List.lookup_eq_none_iff]
  intro entry hentry
  have hne : key ≠ entry.1 := fun heq =>
    h (heq ▸ e.keys_members_sublist.subset (List.mem_map_of_mem hentry))
  simpa using hne

theorem optional_description (e : Enrichment) :
    (slotOf e.members "description").optional Json.asString? = some e.description := by
  obtain ⟨description, roles, metadata⟩ := e
  cases description <;> cases roles <;> cases metadata <;> rfl

/-- Roles that were left out are read as none. -/
theorem optional_roles (e : Enrichment) :
    (slotOf e.members "roles").optional Json.strings? = some e.roles := by
  obtain ⟨description, roles, metadata⟩ := e
  have hlookup : (members ⟨description, roles, metadata⟩).lookup "roles"
      = roles.map Json.ofStrings := by
    cases description <;> cases roles <;> cases metadata <;> rfl
  unfold slotOf
  rw [hlookup]
  cases roles with
  | none => rfl
  | some rs =>
    show (Json.strings? (.ofStrings rs)).map some = some (some rs)
    rw [Json.strings?_ofStrings]
    rfl

/-- Free-form data that is not null is read as it was written. -/
theorem optional_metadata {e : Enrichment} (he : e.IsStorable) :
    (slotOf e.members "metadata").optional (fun v => some v.canonical) = some e.metadata := by
  obtain ⟨description, roles, metadata⟩ := e
  have hlookup : (members ⟨description, roles, metadata⟩).lookup "metadata" = metadata := by
    cases description <;> cases roles <;> cases metadata <;> rfl
  unfold slotOf
  rw [hlookup]
  cases metadata with
  | none => rfl
  | some m =>
    obtain ⟨⟨hcanonical, -⟩, hnull⟩ := he m rfl
    have hgiven := Json.optional_given hnull fun v => some v.canonical
    rw [hcanonical] at hgiven
    exact hgiven

/-- What was added to a node is read again from among its members. -/
theorem ofFields?_slotOf {e : Enrichment} (he : e.IsStorable) {fixed : List (String × Json)}
    (hfixed : (fixed.map Prod.fst ++ keys).Nodup) :
    ofFields? (slotOf (fixed ++ e.members)) = some e := by
  -- the node's own members do not stand in the way
  have hnone : ∀ key ∈ keys, fixed.lookup key = none := by
    intro key hkey
    rw [List.lookup_eq_none_iff]
    intro entry hentry
    have hne : entry.1 ≠ key :=
      (List.nodup_append.mp hfixed).2.2 entry.1 (List.mem_map_of_mem hentry) key hkey
    simpa using hne.symm
  have hslot : ∀ key ∈ keys, slotOf (fixed ++ e.members) key = slotOf e.members key := by
    intro key hkey
    unfold slotOf
    rw [List.lookup_append, hnone key hkey, Option.none_or]
  unfold ofFields?
  rw [hslot "description" (by decide), hslot "roles" (by decide), hslot "metadata" (by decide),
    optional_description, optional_roles, optional_metadata he]
  rfl

end Enrichment

/-- A class is read again, if its lines fit the width that is read. -/
theorem ClassDecl.ofJson?_toJson {c : ClassDecl} (hstart : c.startLine ≤ 0xFFFFFFFF)
    (hend : c.endLine ≤ 0xFFFFFFFF) (he : c.enrichment.IsStorable) : ofJson? c.toJson = some c := by
  have hproperties : Json.list? Property.ofJson? (.arr (c.properties.map (·.toJson)))
      = some (c.properties.map id) :=
    Json.list?_map fun p _ => p.ofJson?_toJson
  have hmodifiers : Json.list? (Json.choice? ClassModifier.ofName?)
      (.arr (c.modifiers.map (.str ·.name))) = some (c.modifiers.map id) :=
    Json.list?_map fun m _ => m.ofName?_name
  rw [List.map_id] at hproperties hmodifiers
  unfold ofJson? toJson
  rw [Json.objectFields?_obj (Enrichment.keys_nodup_append (by simp [Enrichment.keys]) _)]
  dsimp only [Option.bind_eq_bind, Option.bind_some]
  rw [Enrichment.ofFields?_slotOf he (by simp [Enrichment.keys])]
  simp [slotOf, List.lookup_cons, Slot.required, Slot.orElse, Json.asString?, Json.choice?,
    lineNumber?, Json.natUpTo?_ofNat hstart, Json.natUpTo?_ofNat hend, hproperties, hmodifiers]

/-- A function is read again, with its calls as they are stored. -/
theorem FunctionDecl.ofJson?_toJson {f : FunctionDecl} (hstart : f.startLine ≤ 0xFFFFFFFF)
    (hend : f.endLine ≤ 0xFFFFFFFF) (he : f.enrichment.IsStorable) :
    ofJson? f.toJson = some f.stored := by
  have hcalls : Json.list? CallSite.ofJson? (.arr (f.calls.map CallSite.toJson))
      = some (f.calls.map CallSite.stored) :=
    Json.list?_map fun c _ => c.ofJson?_toJson
  have hnoClass : f.enrichment.members.lookup "className" = none :=
    Enrichment.lookup_members_eq_none (by decide) _
  unfold ofJson? toJson toJsonWith
  -- the class name stands among the members only if there is one
  cases hclass : f.className with
  | none =>
    simp only [Option.map_none, Option.toList_none, List.append_nil]
    rw [Json.objectFields?_obj (Enrichment.keys_nodup_append (by simp [Enrichment.keys]) _)]
    dsimp only [Option.bind_eq_bind, Option.bind_some]
    rw [Enrichment.ofFields?_slotOf he (by simp [Enrichment.keys])]
    simp [slotOf, List.lookup_cons, Slot.required, Slot.orElse, Slot.optional, Json.asString?,
      Json.choice?, lineNumber?, Json.natUpTo?_ofNat hstart, Json.natUpTo?_ofNat hend, hcalls,
      hnoClass, stored, hclass]
  | some c =>
    simp only [Option.map_some, Option.toList_some]
    rw [Json.objectFields?_obj (Enrichment.keys_nodup_append (by simp [Enrichment.keys]) _)]
    dsimp only [Option.bind_eq_bind, Option.bind_some]
    rw [Enrichment.ofFields?_slotOf he (by simp [Enrichment.keys])]
    simp [slotOf, List.lookup_cons, Slot.required, Slot.orElse, Slot.optional, Json.asString?,
      Json.choice?, lineNumber?, Json.natUpTo?_ofNat hstart, Json.natUpTo?_ofNat hend, hcalls,
      stored, hclass]

/-- The counts of a file fit the widths they are stored in. -/
structure FileRecord.CountsFit (f : FileRecord) : Prop where
  lines : f.lines ≤ Text.maxUnsigned
  classes : ∀ c ∈ f.classes, c.startLine ≤ 0xFFFFFFFF ∧ c.endLine ≤ 0xFFFFFFFF
  functions : ∀ g ∈ f.functions, g.startLine ≤ 0xFFFFFFFF ∧ g.endLine ≤ 0xFFFFFFFF

instance (f : FileRecord) : Decidable f.CountsFit :=
  decidable_of_iff (f.lines ≤ Text.maxUnsigned
      ∧ (∀ c ∈ f.classes, c.startLine ≤ 0xFFFFFFFF ∧ c.endLine ≤ 0xFFFFFFFF)
      ∧ ∀ g ∈ f.functions, g.startLine ≤ 0xFFFFFFFF ∧ g.endLine ≤ 0xFFFFFFFF)
    ⟨fun h => ⟨h.1, h.2.1, h.2.2⟩, fun h => ⟨h.lines, h.classes, h.functions⟩⟩

/-- What was added to a file and to what it declares. -/
def FileRecord.enrichments (f : FileRecord) : List Enrichment :=
  f.enrichment :: (f.classes.map (·.enrichment) ++ f.functions.map (·.enrichment))

/-- A file is read again with all it declares. -/
theorem FileRecord.ofJson?_toJson {f : FileRecord} (hcounts : f.CountsFit)
    (he : ∀ e ∈ f.enrichments, e.IsStorable) : ofJson? f.toJson = some f.stored := by
  have himports : Json.list? Import.ofJson? (.arr (f.imports.map (·.toJson)))
      = some (f.imports.map Import.stored) :=
    Json.list?_map fun i _ => i.ofJson?_toJson
  -- the hypotheses on the file are those on each of its classes and functions
  have hclasses : Json.list? ClassDecl.ofJson? (.arr (f.classes.map (·.toJson)))
      = some (f.classes.map id) := by
    refine Json.list?_map fun c hc => ?_
    obtain ⟨hstart, hend⟩ := hcounts.classes c hc
    refine ClassDecl.ofJson?_toJson hstart hend (he _ ?_)
    exact List.mem_cons_of_mem _ (List.mem_append_left _ (List.mem_map_of_mem hc))
  have hfunctions : Json.list? FunctionDecl.ofJson? (.arr (f.functions.map (·.toJson)))
      = some (f.functions.map FunctionDecl.stored) := by
    refine Json.list?_map fun g hg => ?_
    obtain ⟨hstart, hend⟩ := hcounts.functions g hg
    refine FunctionDecl.ofJson?_toJson hstart hend (he _ ?_)
    exact List.mem_cons_of_mem _ (List.mem_append_right _ (List.mem_map_of_mem hg))
  rw [List.map_id] at hclasses
  unfold ofJson? toJson
  rw [Json.objectFields?_obj (Enrichment.keys_nodup_append (by simp [Enrichment.keys]) _)]
  dsimp only [Option.bind_eq_bind, Option.bind_some]
  rw [Enrichment.ofFields?_slotOf (he _ List.mem_cons_self) (by simp [Enrichment.keys])]
  simp [slotOf, List.lookup_cons, Slot.required, Slot.orElse, Json.asString?, Json.count?,
    Json.natUpTo?_ofNat hcounts.lines, himports, hclasses, hfunctions, stored]

/-! ## The data of the project -/

/-- The counts of a language fit the width they are stored in. -/
structure LanguageSummary.CountsFit (s : LanguageSummary) : Prop where
  files : s.files ≤ Text.maxUnsigned
  classes : s.classes ≤ Text.maxUnsigned
  functions : s.functions ≤ Text.maxUnsigned
  failedFiles : s.failedFiles ≤ Text.maxUnsigned
  unchangedFiles : s.unchangedFiles ≤ Text.maxUnsigned

instance (s : LanguageSummary) : Decidable s.CountsFit :=
  decidable_of_iff (∀ n ∈ [s.files, s.classes, s.functions, s.failedFiles, s.unchangedFiles],
      n ≤ Text.maxUnsigned)
    ⟨fun h => ⟨h _ (by simp), h _ (by simp), h _ (by simp), h _ (by simp), h _ (by simp)⟩,
     fun h => by simp [h.files, h.classes, h.functions, h.failedFiles, h.unchangedFiles]⟩

/-- The counts of a language are read again. -/
theorem LanguageSummary.ofJson?_toJson {s : LanguageSummary} (h : s.CountsFit) :
    ofJson? s.toJson = some s := by
  unfold ofJson? toJson
  rw [Json.recordFields?_obj (by simp)]
  simp [slotOf, List.lookup_cons, Slot.required, Json.count?, Json.natUpTo?_ofNat h.files,
    Json.natUpTo?_ofNat h.classes, Json.natUpTo?_ofNat h.functions,
    Json.natUpTo?_ofNat h.failedFiles, Json.natUpTo?_ofNat h.unchangedFiles]

/-- The summaries are read again by their languages. -/
theorem LanguageSummary.dictOfJson?_toJson {d : Dict LanguageSummary}
    (h : ∀ e ∈ d.entries, e.2.CountsFit) :
    dictOfJson? (.obj (d.map (·.toJson)).entries) = some d := by
  have hentries : ((d.map (·.toJson)).entries.mapM fun e => (ofJson? e.2).map (e.1, ·))
      = some (d.entries.map id) := by
    refine Traversal.mapM_map fun e he => ?_
    show (ofJson? e.2.toJson).map (e.1, ·) = some e
    rw [ofJson?_toJson (h e he)]
    rfl
  rw [List.map_id] at hentries
  show (((d.map (·.toJson)).entries.mapM fun e => (ofJson? e.2).map (e.1, ·)).bind
    fun entries => some (Dict.ofList entries)) = some d
  -- the entries are sorted already, so reading them back builds the same dictionary
  rw [hentries, Option.bind_some, Dict.ofList_entries]

/-- The counts of a project fit the width they are stored in. -/
structure ProjectData.CountsFit (p : ProjectData) : Prop where
  totalFiles : p.totalFiles ≤ Text.maxUnsigned
  totalClasses : p.totalClasses ≤ Text.maxUnsigned
  totalFunctions : p.totalFunctions ≤ Text.maxUnsigned
  totalLines : p.totalLines ≤ Text.maxUnsigned
  totalCalls : p.totalCalls ≤ Text.maxUnsigned
  resolvedCalls : p.resolvedCalls ≤ Text.maxUnsigned
  languages : ∀ e ∈ p.languages.entries, e.2.CountsFit

instance (p : ProjectData) : Decidable p.CountsFit :=
  decidable_of_iff ((∀ n ∈ [p.totalFiles, p.totalClasses, p.totalFunctions, p.totalLines,
      p.totalCalls, p.resolvedCalls], n ≤ Text.maxUnsigned)
      ∧ ∀ e ∈ p.languages.entries, e.2.CountsFit)
    ⟨fun h => ⟨h.1 _ (by simp), h.1 _ (by simp), h.1 _ (by simp), h.1 _ (by simp),
       h.1 _ (by simp), h.1 _ (by simp), h.2⟩,
     fun h => ⟨by simp [h.totalFiles, h.totalClasses, h.totalFunctions, h.totalLines, h.totalCalls,
       h.resolvedCalls], h.languages⟩⟩

/-- The data of a project is read again. -/
theorem ProjectData.ofJson?_toJson {p : ProjectData} (hcounts : p.CountsFit)
    (htime : p.generatedAt.IsValid)
    (hvalues : ∀ f ∈ p.configFiles, f.metadata.IsStorable) :
    ofJson? p.toJson = some p := by
  have hlanguages := LanguageSummary.dictOfJson?_toJson hcounts.languages
  have htools : Json.list? BuildTool.ofJson? (.arr (p.buildTools.map (·.toJson)))
      = some (p.buildTools.map id) :=
    Json.list?_map fun t _ => t.ofJson?_toJson
  have hdependencies : Json.list? Dependency.ofJson? (.arr (p.dependencies.map (·.toJson)))
      = some (p.dependencies.map id) :=
    Json.list?_map fun d _ => d.ofJson?_toJson
  have hconfig : Json.list? ConfigFile.ofJson? (.arr (p.configFiles.map (·.toJson)))
      = some (p.configFiles.map id) :=
    Json.list?_map fun f hf => ConfigFile.ofJson?_toJson (hvalues f hf)
  rw [List.map_id] at htools hdependencies hconfig
  unfold ofJson? toJson
  rw [Json.recordFields?_obj (by simp)]
  dsimp only [Option.bind_eq_bind, Option.bind_some]
  simp [slotOf, List.lookup_cons, Slot.required, Slot.orElse, Json.asString?, Json.count?,
    Instant.read?_toText htime, Json.natUpTo?_ofNat hcounts.totalFiles,
    Json.natUpTo?_ofNat hcounts.totalClasses, Json.natUpTo?_ofNat hcounts.totalFunctions,
    Json.natUpTo?_ofNat hcounts.totalLines, Json.natUpTo?_ofNat hcounts.totalCalls,
    Json.natUpTo?_ofNat hcounts.resolvedCalls, hlanguages, htools, hdependencies, hconfig]

/-- A file is no project data: it has no name. -/
theorem ProjectData.ofJson?_file (f : FileRecord) : ofJson? f.toJson = none := by
  have hnoName : f.enrichment.members.lookup "name" = none :=
    Enrichment.lookup_members_eq_none (by decide) _
  unfold ofJson? FileRecord.toJson
  rw [Json.recordFields?_obj (Enrichment.keys_nodup_append (by simp [Enrichment.keys]) _)]
  dsimp only [Option.bind_eq_bind, Option.bind_some]
  simp [slotOf, List.lookup_cons, Slot.required, hnoName]

end SourceAtlas
