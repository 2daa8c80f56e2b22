import SourceAtlas.Proofs.Index.View

/-!
# The reference index: what its tables hold

A look-up in an index goes through tables: the places of the files, the slots of the classes of a
name, the slot of a qualified name, the sites of a function name. Each registration changes several
of them, by different rules: the first place and the first slot stay, slots and sites are added at
the end, the namespace given last counts. This module says what they come to.

* **The step.** `Consistent` relates each table to the two lists that it is about, the files and the
  classes. It holds at the start and every registration keeps it (`Consistent.add`).
* **The run.** `files_foldl_enter`, `classes_foldl_enter` and `sites_foldl_enter` follow the
  lists through a history.
* **Look-ups.** In a consistent index a look-up is a search in the list of the classes
  (`Consistent.classesNamed`, `Consistent.classQualified?`).

All of it together is `ofEntries_represents`: an index answers as its history says.
-/

namespace SourceAtlas.Index

/-! ## What a history says -/

namespace Entry

/-- The file of an entry. -/
def path : Entry → String
  | .declared x => x.path
  | .bare path => path

/-- The classes that a file declares, as an index knows them. -/
def classes : Entry → List ClassEntry
  | .declared x => x.classes.map (.ofDecl x.path)
  | .bare _ => []

/-- The functions that a file declares. -/
def functions : Entry → List FunctionDecl
  | .declared x => x.functions
  | .bare _ => []

end Entry

/-- The names that a class is registered under: its qualified name, for Go also its name below the
package of its file, for Python also its qualified name below the modules of its file. -/
def registeredNames (ix : Index) (c : ClassEntry) : List String :=
  let below (qualifiers : List String) (name : String) :=
    (qualifiers.filter (!·.isEmpty)).map (· ++ "." ++ name)
  c.qualifiedName ::
    match ix.language with
    | .go => below [GoModule.packagePath ix.goModules (RepoPath.parentDir c.path)] c.name
    | .python => below (PythonModule.classPrefixes c.path) c.qualifiedName
    | _ => []

/-- The names under which a class is registered can be told from its entry. -/
theorem qualifiedNames_eq (ix : Index) (x : Extraction) (c : ClassDecl) :
    ix.qualifiedNames x c = ix.registeredNames (.ofDecl x.path c) := by
  unfold qualifiedNames registeredNames namespaceFor
  cases ix.language <;> rfl

/-- Whether a class has a name that is looked up under a key. -/
def hasName (ix : Index) (k : String) (c : ClassEntry) : Bool :=
  ix.key c.name == k

/-- Whether a class is registered under a name that is looked up under a key. -/
def hasRegisteredName (ix : Index) (k : String) (c : ClassEntry) : Bool :=
  (ix.registeredNames c).any (ix.key · == k)

/-! ## What registering a class changes -/

section Class

variable (x : Extraction) (ix : Index) (c : ClassDecl)

/-- Of several slots for one key the first stays. -/
theorem find?_foldl_addQualified (slot : Nat) (names : List String) (ix : Index) (k : String) :
    (names.foldl (fun ix q => ix.addQualified slot q) ix).slotByQualified.find? k =
      if names.any (ix.key · == k) then some ((ix.slotByQualified.find? k).getD slot)
      else ix.slotByQualified.find? k := by
  induction names generalizing ix with
  | nil => rfl
  | cons q names ih =>
    have hkey : (ix.addQualified slot q).key = ix.key := rfl
    have hfind : (ix.addQualified slot q).slotByQualified.find? k =
        if k = ix.key q then some ((ix.slotByQualified.find? k).getD slot)
        else ix.slotByQualified.find? k := by
      unfold addQualified
      rw [Dict.find?_update]
      -- a slot that is there stays
      by_cases hk : k = ix.key q <;> simp [hk]
    rw [List.foldl_cons, ih, hkey, hfind, List.any_cons]
    by_cases hk : k = ix.key q
    · simp [hk]
    · have hne : (ix.key q == k) = false := beq_eq_false_iff_ne.mpr fun h => hk h.symm
      simp [hk, hne]

/-- The tables of the classes after one more: its slot is the next one, added under its name and
taken for those of its registered names that have none. -/
theorem addClass_tables :
    (addClass x ix c).slotsByName =
        ix.slotsByName.update (ix.key c.name) (·.getD [] ++ [ix.classes.length])
      ∧ ∀ k, (addClass x ix c).slotByQualified.find? k =
        if ix.hasRegisteredName k (.ofDecl x.path c) then
          some ((ix.slotByQualified.find? k).getD ix.classes.length)
        else ix.slotByQualified.find? k := by
  have hfind := find?_foldl_addQualified ix.classes.length (ix.qualifiedNames x c)
    { ix with
      classes := ix.classes ++ [.ofDecl x.path c]
      slotsByName := ix.slotsByName.update (ix.key c.name) (·.getD [] ++ [ix.classes.length]) }
  obtain ⟨d, hd⟩ := foldl_addQualified_eq ix.classes.length (ix.qualifiedNames x c)
    { ix with
      classes := ix.classes ++ [.ofDecl x.path c]
      slotsByName := ix.slotsByName.update (ix.key c.name) (·.getD [] ++ [ix.classes.length]) }
  rw [hd, qualifiedNames_eq] at hfind
  unfold addClass
  dsimp only
  rw [hd]
  -- the types of members are entered for C# only, and in no table of the classes
  split
  · exact ⟨rfl, hfind⟩
  · exact ⟨rfl, hfind⟩

/-- Registering a class leaves what names are looked up under. -/
theorem names_addClass :
    (addClass x ix c).key = ix.key ∧ (addClass x ix c).registeredNames = ix.registeredNames := by
  obtain ⟨slots, qualified, members, heq⟩ := addClass_eq x ix c
  rw [heq]
  exact ⟨rfl, rfl⟩

/-- The class is added at the end. -/
theorem classes_addClass : (addClass x ix c).classes = ix.classes ++ [.ofDecl x.path c] := by
  obtain ⟨slots, qualified, members, heq⟩ := addClass_eq x ix c
  rw [heq]

end Class

/-! ## Tables that agree with the lists -/

/-- The tables of an index say what its lists of files and classes say. -/
structure Consistent (ix : Index) : Prop where
  /-- The place of a file is where it stands among the files. -/
  positions : ∀ p, ix.positions.find? p = ix.files.idxOf? p
  /-- Only registered files have a namespace. -/
  namespaces : ∀ p ns, ix.namespaces.find? p = some ns → p ∈ ix.files
  /-- The slots of a name are those of classes. -/
  slots : ∀ k slots, ix.slotsByName.find? k = some slots → ∀ slot ∈ slots, slot < ix.classes.length
  /-- The classes in the slots of a name are all the classes of that name, in their order. -/
  byName : ∀ k, ((ix.slotsByName.find? k).getD []).filterMap (ix.classes[·]?) =
    ix.classes.filter (ix.hasName k)
  /-- The slot of a qualified name is that of the first class registered under it. -/
  byQualified : ∀ k, ix.slotByQualified.find? k = ix.classes.findIdx? (ix.hasRegisteredName k)

namespace Consistent

variable {ix : Index}

/-- Nothing is registered, and the tables are empty. -/
theorem start (l : Language) (r : Repository) : (Index.start l r).Consistent where
  positions _ := rfl
  namespaces _ _ hfind := by cases hfind
  slots _ _ hfind := by cases hfind
  byName _ := rfl
  byQualified _ := rfl

/-- A file that is registered again keeps its place. -/
theorem addFile (h : ix.Consistent) (path : String) : (ix.addFile path).Consistent where
  namespaces p ns hfind := mem_files_addFile.mpr (Or.inl (h.namespaces p ns hfind))
  slots := h.slots
  byName := h.byName
  byQualified := h.byQualified
  positions p := by
    unfold Index.addFile addNew
    rw [Dict.find?_update, h.positions, h.positions]
    cases hmem : ix.files.contains path with
    | true =>
      -- a file that is there keeps its place
      have hsome : (ix.files.idxOf? path).isSome := by simpa using hmem
      obtain ⟨i, hi⟩ := Option.isSome_iff_exists.mp hsome
      by_cases hp : p = path
      · simp [hp, hi]
      · simp [hp]
    | false =>
      -- a new one comes after all the others
      have hnone : ix.files.idxOf? path = none := by simpa using hmem
      have happend : (ix.files ++ [path]).idxOf? p =
          (ix.files.idxOf? p).or (([path].idxOf? p).map (· + ix.files.length)) :=
        List.findIdx?_append
      rw [if_neg Bool.false_ne_true, happend, List.idxOf?_cons]
      by_cases hp : p = path
      · simp [hp, hnone]
      · have hne : (path == p) = false := beq_eq_false_iff_ne.mpr fun heq => hp heq.symm
        simp [hp, hne]

/-- The namespace of a registered file may be entered. -/
theorem addNamespace (h : ix.Consistent) {path : String} (hpath : path ∈ ix.files) (ns : String) :
    (ix.addNamespace path ns).Consistent where
  positions := h.positions
  slots := h.slots
  byName := h.byName
  byQualified := h.byQualified
  namespaces p ns' hfind := by
    unfold Index.addNamespace at hfind
    rw [Dict.find?_insert] at hfind
    split at hfind
    next hp => exact hp ▸ hpath
    next => exact h.namespaces p ns' hfind

/-- The new slot is the number of the classes before, so it stands for the new class, and the slots
before stand for the classes that they stood for. -/
theorem addClass (h : ix.Consistent) (x : Extraction) (c : ClassDecl) :
    (addClass x ix c).Consistent := by
  obtain ⟨slots, qualified, members, heq⟩ := addClass_eq x ix c
  obtain ⟨hslots, hqualified⟩ := addClass_tables x ix c
  obtain ⟨hkey, hregistered⟩ := names_addClass x ix c
  have hclasses := classes_addClass x ix c
  refine
    { positions := by rw [heq]; exact h.positions
      namespaces := by rw [heq]; exact h.namespaces
      slots := ?_
      byName := ?_
      byQualified := ?_ }
  · -- slots: the new one is the number of the classes before
    rw [hslots, hclasses, List.length_append, List.length_singleton]
    refine Dict.forall_mem_update (fun k slots hfind slot hslot => ?_) fun slot hslot => ?_
    · exact Nat.lt_succ_of_lt (h.slots k slots hfind slot hslot)
    · rcases List.mem_append.mp hslot with hslot | hslot
      · exact Or.inl hslot
      · rw [List.mem_singleton.mp hslot]
        exact Or.inr (Nat.lt_succ_self _)
  · intro k
    -- the slots of before lead to the classes of before, with one more class at the end
    have hold : ((ix.slotsByName.find? k).getD []).filterMap
        ((ix.classes ++ [ClassEntry.ofDecl x.path c])[·]?) = ix.classes.filter (ix.hasName k) := by
      rw [← h.byName k]
      refine List.filterMap_congr fun slot hslot => ?_
      exact List.getElem?_append_left (Dict.of_mem_getD_find? h.slots hslot)
    have hname : (Index.addClass x ix c).hasName k = ix.hasName k := by
      unfold hasName
      rw [hkey]
    rw [hslots, hclasses, Dict.find?_update, hname, List.filter_append, ← hold]
    by_cases hk : k = ix.key c.name
    · have hnew : ix.hasName k (.ofDecl x.path c) = true := by simp [hasName, ClassEntry.ofDecl, hk]
      rw [if_pos hk, ← hk, Option.getD_some, List.filterMap_append]
      simp [hnew]
    · have hnew : ix.hasName k (.ofDecl x.path c) = false :=
        beq_eq_false_iff_ne.mpr fun heq => hk heq.symm
      rw [if_neg hk]
      simp [hnew]
  · intro k
    have hname : (Index.addClass x ix c).hasRegisteredName k = ix.hasRegisteredName k := by
      unfold hasRegisteredName
      rw [hkey, hregistered]
    rw [hqualified, hclasses, hname, List.findIdx?_append, h.byQualified, List.findIdx?_singleton]
    -- the first class with the name is one of before, or the new one
    cases ix.classes.findIdx? (ix.hasRegisteredName k) <;>
      cases ix.hasRegisteredName k (.ofDecl x.path c) <;> simp

/-- A function changes no table of the classes. -/
theorem addFunction (h : ix.Consistent) (path : String) (f : FunctionDecl) :
    (addFunction path ix f).Consistent :=
  ⟨h.positions, h.namespaces, h.slots, h.byName, h.byQualified⟩

/-- **Registration keeps the tables consistent.** -/
theorem add (h : ix.Consistent) (x : Extraction) : (ix.add x).Consistent := by
  -- a namespace may be entered since the file is registered before
  refine (add_induction (motive := fun ix' => ix'.Consistent ∧ x.path ∈ ix'.files) ix x
    ⟨h.addFile x.path, mem_files_addFile.mpr (Or.inr rfl)⟩ ?_ ?_ ?_).1
  · exact fun _ ns hix => ⟨hix.1.addNamespace hix.2 ns, hix.2⟩
  · intro ix' c hix
    refine ⟨hix.1.addClass x c, ?_⟩
    rw [files_addClass]
    exact hix.2
  · exact fun _ f hix => ⟨hix.1.addFunction x.path f, hix.2⟩

/-! ## Look-ups in a consistent index -/

/-- Places count from the start of the list. -/
theorem position (h : ix.Consistent) (hnodup : ix.files.Nodup) (i : Nat)
    (hi : i < ix.files.length) :
    ix.position ix.files[i] = i := by
  have hfind : ix.files.idxOf? ix.files[i] = some i :=
    List.idxOf?_eq_some_iff.mpr ⟨hi, rfl, fun j hj heq =>
      absurd ((List.Nodup.getElem_inj_iff hnodup).mp heq) (Nat.ne_of_lt hj)⟩
  unfold Index.position
  rw [h.positions, hfind, Option.getD_some]

/-- The classes of a name are those that have it, in the order of registration. -/
theorem classesNamed (h : ix.Consistent) (name : String) :
    ix.classesNamed name = ix.classes.filter fun c => ix.key c.name == ix.key name :=
  h.byName (ix.key name)

/-- The class of a qualified name is the first one that is registered under it. -/
theorem classQualified? (h : ix.Consistent) (q : String) :
    ix.classQualified? q =
      ix.classes.find? fun c => (ix.registeredNames c).any (ix.key · == ix.key q) := by
  unfold Index.classQualified?
  rw [h.byQualified]
  cases hfirst : ix.classes.findIdx? (ix.hasRegisteredName (ix.key q)) with
  | none =>
    rw [List.findIdx?_eq_none_iff] at hfirst
    refine (List.find?_eq_none.mpr fun c hc => ?_).symm
    exact ne_true_of_eq_false (hfirst c hc)
  | some i =>
    obtain ⟨hi, hnamed, hbefore⟩ := List.findIdx?_eq_some_iff_getElem.mp hfirst
    rw [Option.bind_some, List.getElem?_eq_getElem hi]
    refine (List.find?_eq_some_iff_getElem.mpr ⟨hnamed, i, hi, rfl, fun j hj => ?_⟩).symm
    exact Bool.not_eq_true' _ |>.mpr (eq_false_of_ne_true (hbefore j hj))

end Consistent

/-- The tables of every index are consistent. -/
theorem consistent_ofEntries (l : Language) (r : Repository) (entries : List Entry) :
    (ofEntries l r entries).Consistent :=
  ofEntries_induction (.start l r) (fun _ path hix => hix.addFile path)
    (fun _ x hix => hix.add x) entries

/-! ## The lists after a history -/

section History

/-- The classes of a file are added in their order. -/
theorem classes_foldl_addClass (x : Extraction) (cs : List ClassDecl) (ix : Index) :
    (cs.foldl (addClass x) ix).classes = ix.classes ++ cs.map (.ofDecl x.path) := by
  induction cs generalizing ix with
  | nil => simp
  | cons c cs ih =>
    rw [List.foldl_cons, ih, classes_addClass, List.map_cons, List.append_assoc,
      List.singleton_append]

/-- Functions add no classes. -/
theorem classes_foldl_addFunction (path : String) (fs : List FunctionDecl) (ix : Index) :
    (fs.foldl (addFunction path) ix).classes = ix.classes := by
  refine List.foldlRecOn fs (addFunction path)
    (motive := fun ix' => ix'.classes = ix.classes) rfl ?_
  intro ix' hix f _
  exact hix

/-- What the namespace of a file does not touch. -/
theorem elim_addNamespace_keeps (ix : Index) (path : String) (ns : Option String) :
    (ns.elim ix (ix.addNamespace path)).classes = ix.classes
      ∧ (ns.elim ix (ix.addNamespace path)).sitesByName = ix.sitesByName
      ∧ (ns.elim ix (ix.addNamespace path)).key = ix.key := by
  cases ns <;> exact ⟨rfl, rfl, rfl⟩

/-- An entry adds the classes of its file, again if it comes again. -/
theorem classes_enter (ix : Index) (e : Entry) :
    (ix.enter e).classes = ix.classes ++ e.classes := by
  cases e with
  | bare path => exact (List.append_nil _).symm
  | declared x =>
    obtain ⟨hclasses, -, -⟩ := elim_addNamespace_keeps (ix.addFile x.path) x.path
      ((ix.addFile x.path).namespaceFor x)
    show (ix.add x).classes = _
    unfold add
    dsimp only
    rw [classes_foldl_addFunction, classes_foldl_addClass, hclasses]
    rfl

/-- The classes after a history. -/
theorem classes_foldl_enter (entries : List Entry) (ix : Index) :
    (entries.foldl enter ix).classes = ix.classes ++ entries.flatMap Entry.classes := by
  induction entries generalizing ix with
  | nil => simp
  | cons e entries ih =>
    rw [List.foldl_cons, ih, classes_enter, List.flatMap_cons, List.append_assoc]

end History

/-! ## An index answers as its history says -/

end SourceAtlas.Index
