import SourceAtlas.Dict
import Mathlib.Data.List.Nodup
import Mathlib.Data.List.Perm.Basic

/-!
# Dictionaries: entries, keys and look-up

`Dict.find?` is the view through which the rest of the development sees a dictionary. This module
relates it to the other two views and to the list that a dictionary is made from:

* **`find?_eq_some_iff_mem`**: a look-up finds exactly the entries;
* **`mem_keys_iff`**: the keys are the texts for which a look-up finds something;
* **`find?_ofList`**: of several pairs with one key the last one counts;
* **`keys_ofList_perm`**: a list without repeated keys loses nothing but its order;
* **`ext_find?`**: dictionaries that answer every look-up alike are equal;
* **`ofList_eq_of_agree`**: so the order of pairs does not matter where those of one key agree.
-/

namespace SourceAtlas.Dict

variable {α : Type}

/-! ## Entries and keys -/

/-- The keys stand in strictly increasing order. -/
theorem keys_pairwise (d : Dict α) : d.keys.Pairwise (· < ·) := by
  unfold keys
  rw [List.pairwise_map]
  exact d.increasing

/-- No key is repeated. -/
theorem keys_nodup (d : Dict α) : d.keys.Nodup := by
  refine d.keys_pairwise.imp ?_
  intro a b hlt heq
  exact String.lt_irrefl b (heq ▸ hlt)

/-- In a list without repeated keys a look-up finds exactly the pairs. -/
theorem lookup_eq_some_iff_mem {pairs : List (String × α)} (h : (pairs.map Prod.fst).Nodup)
    {key : String} {value : α} : pairs.lookup key = some value ↔ (key, value) ∈ pairs := by
  induction pairs with
  | nil => simp
  | cons e rest ih =>
    obtain ⟨k, v⟩ := e
    rw [List.map_cons, List.nodup_cons] at h
    rw [lookup_entry, List.mem_cons, Prod.mk.injEq]
    by_cases hk : key = k
    · -- the head answers; no later pair has its key
      subst hk
      have hrest : (key, value) ∉ rest := fun hmem =>
        h.1 (List.mem_map.mpr ⟨(key, value), hmem, rfl⟩)
      simp [hrest, eq_comm]
    · simp [hk, ih h.2]

/-- A look-up finds exactly the entries. -/
theorem find?_eq_some_iff_mem {d : Dict α} {key : String} {value : α} :
    d.find? key = some value ↔ (key, value) ∈ d.entries :=
  lookup_eq_some_iff_mem d.keys_nodup

/-- The keys are the texts for which a look-up finds something. -/
theorem mem_keys_iff {d : Dict α} {key : String} :
    key ∈ d.keys ↔ ∃ value, d.find? key = some value := by
  unfold keys
  rw [List.mem_map]
  constructor
  · rintro ⟨⟨k, v⟩, hmem, rfl⟩
    exact ⟨v, find?_eq_some_iff_mem.mpr hmem⟩
  · rintro ⟨v, hv⟩
    exact ⟨(key, v), find?_eq_some_iff_mem.mp hv, rfl⟩

theorem contains_iff_mem_keys {d : Dict α} {key : String} :
    d.contains key = true ↔ key ∈ d.keys := by
  rw [contains_eq_isSome_find?, Option.isSome_iff_exists, mem_keys_iff]

/-! ## Dictionaries made from lists

`ofList` inserts one pair after another, so a statement about it has to carry the dictionary that is
already there. -/

/-- Inserting pairs one after another: the last pair with a key counts, then what was there. -/
theorem find?_foldl_insert (pairs : List (String × α)) (d : Dict α) (key : String) :
    (pairs.foldl (fun d (k, v) => d.insert k v) d).find? key
      = (pairs.reverse.lookup key).or (d.find? key) := by
  induction pairs generalizing d with
  | nil => simp
  | cons e rest ih =>
    obtain ⟨k, v⟩ := e
    -- the first pair is the last one to be asked
    have hlast : ((rest.reverse ++ [(k, v)]).lookup key)
        = (rest.reverse.lookup key).or (if key = k then some v else none) := by
      rw [List.lookup_append, lookup_entry, List.lookup_nil]
    rw [List.foldl_cons, ih, find?_insert, List.reverse_cons, hlast, Option.or_assoc]
    by_cases hk : key = k <;> simp [hk]

/-- Of several pairs with one key the last one counts. -/
theorem find?_ofList (pairs : List (String × α)) (key : String) :
    (ofList pairs).find? key = pairs.reverse.lookup key := by
  have h := find?_foldl_insert pairs empty key
  rw [find?_empty, Option.or_none] at h
  exact h

/-- What a dictionary made from a list finds is a pair of the list. -/
theorem mem_of_find?_ofList {pairs : List (String × α)} {key : String} {value : α}
    (h : (ofList pairs).find? key = some value) : (key, value) ∈ pairs := by
  rw [find?_ofList] at h
  obtain ⟨before, after, hsplit, -⟩ := List.lookup_eq_some_iff.mp h
  rw [← List.mem_reverse, hsplit]
  simp

/-- The keys of a dictionary made from a list are those of its pairs. -/
theorem mem_keys_ofList {pairs : List (String × α)} {key : String} :
    key ∈ (ofList pairs).keys ↔ key ∈ pairs.map Prod.fst := by
  rw [mem_keys_iff]
  constructor
  · rintro ⟨v, hv⟩
    exact List.mem_map_of_mem (mem_of_find?_ofList hv)
  · intro hmem
    obtain ⟨⟨k, v⟩, hkv, rfl⟩ := List.mem_map.mp hmem
    -- a pair with the key would have been found from the end of the list
    cases hfound : (ofList pairs).find? k with
    | some value => exact ⟨value, rfl⟩
    | none =>
      rw [find?_ofList, List.lookup_eq_none_iff] at hfound
      have := hfound (k, v) (List.mem_reverse.mpr hkv)
      simp at this

/-- Where all pairs with a key agree on its value, a look-up finds that value. -/
theorem find?_ofList_of_agree {pairs : List (String × α)} {key : String} {value : α}
    (hmem : (key, value) ∈ pairs) (hagree : ∀ v, (key, v) ∈ pairs → v = value) :
    (ofList pairs).find? key = some value := by
  have hkey : key ∈ (ofList pairs).keys := mem_keys_ofList.mpr (List.mem_map_of_mem hmem)
  -- some value is found, and there is only one
  obtain ⟨v, hv⟩ := mem_keys_iff.mp hkey
  rw [hv, hagree v (mem_of_find?_ofList hv)]

/-- From a list without repeated keys a look-up finds exactly its pairs. -/
theorem find?_ofList_eq_some_iff {pairs : List (String × α)} (h : (pairs.map Prod.fst).Nodup)
    {key : String} {value : α} : (ofList pairs).find? key = some value ↔ (key, value) ∈ pairs := by
  have hreverse : (pairs.reverse.map Prod.fst).Nodup := by
    rw [List.map_reverse]
    exact List.nodup_reverse.mpr h
  rw [find?_ofList, lookup_eq_some_iff_mem hreverse, List.mem_reverse]

/-- A list without repeated keys loses nothing but its order. -/
theorem keys_ofList_perm {pairs : List (String × α)} (h : (pairs.map Prod.fst).Nodup) :
    (ofList pairs).keys.Perm (pairs.map Prod.fst) :=
  (List.perm_ext_iff_of_nodup (keys_nodup _) h).mpr fun _ => mem_keys_ofList

/-! ## Equality -/

/--
Dictionaries that answer every look-up alike are equal: the order of the entries is that of their
keys, so there is only one list of them.
-/
theorem ext_find? {d d' : Dict α} (h : ∀ key, d.find? key = d'.find? key) : d = d' := by
  have hperm : d.entries.Perm d'.entries := by
    refine (List.perm_ext_iff_of_nodup (List.Nodup.of_map _ d.keys_nodup)
      (List.Nodup.of_map _ d'.keys_nodup)).mpr fun e => ?_
    rw [← find?_eq_some_iff_mem, ← find?_eq_some_iff_mem, h]
  -- two sorted lists with the same entries are one list
  have hentries : d.entries = d'.entries :=
    List.Perm.eq_of_pairwise (fun a b _ _ hab hba => absurd hba (String.lt_asymm hab)) d.increasing
      d'.increasing hperm
  cases d
  cases d'
  cases hentries
  rfl

/-- A dictionary is made from its entries. -/
theorem ofList_entries (d : Dict α) : ofList d.entries = d := by
  refine ext_find? fun key => Option.ext fun value => ?_
  rw [find?_ofList_eq_some_iff d.keys_nodup, find?_eq_some_iff_mem]

/-- Two lists with the same pairs make the same dictionary if the pairs of one key agree. -/
theorem ofList_eq_of_agree {pairs pairs' : List (String × α)} (hmem : ∀ e, e ∈ pairs ↔ e ∈ pairs')
    (hagree : ∀ key v w, (key, v) ∈ pairs → (key, w) ∈ pairs → v = w) :
    ofList pairs = ofList pairs' := by
  refine ext_find? fun key => Option.ext fun value => ?_
  constructor
  · intro hfind
    have hpair := mem_of_find?_ofList hfind
    exact find?_ofList_of_agree ((hmem _).mp hpair) fun v hv =>
      hagree key v value ((hmem _).mpr hv) hpair
  · intro hfind
    have hpair := (hmem _).mpr (mem_of_find?_ofList hfind)
    exact find?_ofList_of_agree hpair fun v hv => hagree key v value hv hpair

/-- A dictionary without values is a set of keys. -/
theorem ofList_unit_congr {pairs pairs' : List (String × Unit)}
    (h : ∀ key, key ∈ pairs.map Prod.fst ↔ key ∈ pairs'.map Prod.fst) :
    ofList pairs = ofList pairs' := by
  have hmem :
      ∀ (ps : List (String × Unit)) (e : String × Unit), e ∈ ps ↔ e.1 ∈ ps.map Prod.fst := by
    intro ps e
    refine ⟨List.mem_map_of_mem, fun hkey => ?_⟩
    obtain ⟨e', he', heq⟩ := List.mem_map.mp hkey
    rwa [← show e' = e from Prod.ext heq rfl]
  refine ofList_eq_of_agree (fun e => ?_) fun _ _ _ _ _ => rfl
  rw [hmem, hmem, h]

/-! ## Dictionaries of lists

A dictionary of lists is asked for the items under a key, none if there are none, and grows by
updates of one key. What holds of all its items is then a matter of the items that come in. -/

section Items

variable {d : Dict (List α)} {P : α → Prop}

theorem of_mem_getD_find? (h : ∀ key items, d.find? key = some items → ∀ a ∈ items, P a)
    {key : String} {a : α} (ha : a ∈ (d.find? key).getD []) : P a := by
  cases hfind : d.find? key with
  | none =>
    rw [hfind] at ha
    cases ha
  | some items =>
    rw [hfind, Option.getD_some] at ha
    exact h key items hfind a ha

theorem forall_mem_update (h : ∀ key items, d.find? key = some items → ∀ a ∈ items, P a)
    {key : String} {f : Option (List α) → List α}
    (hf : ∀ a ∈ f (d.find? key), a ∈ (d.find? key).getD [] ∨ P a) :
    ∀ k items, (d.update key f).find? k = some items → ∀ a ∈ items, P a := by
  intro k items hfind a ha
  rw [find?_update] at hfind
  split at hfind
  · -- the key itself: the items so far and what comes in
    rw [← Option.some.inj hfind] at ha
    rcases hf a ha with hold | hnew
    · exact of_mem_getD_find? h hold
    · exact hnew
  · exact h k items hfind a ha

end Items

end SourceAtlas.Dict
