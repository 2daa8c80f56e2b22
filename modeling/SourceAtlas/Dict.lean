/-!
# Dictionaries with text keys

A finite map from texts, kept as a list in strictly increasing key order. The order is the one of
the code points, which is also the bytewise order of the UTF-8 forms. Since the order is part of
the type, two dictionaries that answer every look-up alike are equal, whatever was inserted first.
-/

namespace SourceAtlas

/-- Entries in strictly increasing key order, so that no key is repeated. -/
def KeysIncrease {α : Type} (entries : List (String × α)) : Prop :=
  entries.Pairwise fun a b => a.1 < b.1

/-- A finite map from texts to values of `α`. -/
structure Dict (α : Type) where
  entries : List (String × α)
  increasing : KeysIncrease entries
  deriving DecidableEq

namespace Dict

variable {α β : Type}

/-- Puts `value` under `key` into a list in key order, in place of what was there. -/
def insertEntry (key : String) (value : α) : List (String × α) → List (String × α)
  | [] => [(key, value)]
  | (k, v) :: rest =>
    if key < k then (key, value) :: (k, v) :: rest
    else if k < key then (k, v) :: insertEntry key value rest
    else (key, value) :: rest

theorem eq_of_not_lt {a b : String} (hab : ¬ a < b) (hba : ¬ b < a) : a = b :=
  String.le_antisymm (String.not_lt.mp hba) (String.not_lt.mp hab)

/-- The keys after an insertion are the key inserted and the ones before. -/
theorem mem_keys_insertEntry {key k : String} {value : α} {entries : List (String × α)} :
    k ∈ (insertEntry key value entries).map Prod.fst ↔ k = key ∨ k ∈ entries.map Prod.fst := by
  induction entries with
  | nil => simp [insertEntry]
  | cons e rest ih =>
    obtain ⟨k', v'⟩ := e
    simp only [insertEntry]
    split
    · simp
    · split
      · simp only [List.map_cons, List.mem_cons, ih]
        constructor
        · rintro (h | h | h) <;> simp [h]
        · rintro (h | h | h) <;> simp [h]
      · have : k' = key := eq_of_not_lt ‹_› ‹_›
        subst this
        simp

theorem keysIncrease_insertEntry {key : String} {value : α} {entries : List (String × α)}
    (h : KeysIncrease entries) : KeysIncrease (insertEntry key value entries) := by
  induction entries with
  | nil => simp [insertEntry, KeysIncrease]
  | cons e rest ih =>
    obtain ⟨k', v'⟩ := e
    have hrest : KeysIncrease rest := List.Pairwise.of_cons h
    have hhead : ∀ e ∈ rest, k' < e.1 := (List.pairwise_cons.mp h).1
    simp only [insertEntry]
    split
    next hlt =>
      refine List.pairwise_cons.mpr ⟨?_, h⟩
      intro e he
      rcases List.mem_cons.mp he with rfl | he
      · exact hlt
      · exact String.lt_trans hlt (hhead e he)
    next hlt =>
      split
      next hgt =>
        refine List.pairwise_cons.mpr ⟨?_, ih hrest⟩
        intro e he
        have hmem : e.1 ∈ (insertEntry key value rest).map Prod.fst := List.mem_map_of_mem he
        rcases mem_keys_insertEntry.mp hmem with hk | hk
        · simpa [hk] using hgt
        · obtain ⟨e', he', heq⟩ := List.mem_map.mp hk
          exact heq ▸ hhead e' he'
      next hgt =>
        have : k' = key := eq_of_not_lt hgt hlt
        subst this
        exact List.pairwise_cons.mpr ⟨hhead, hrest⟩

/-- The dictionary without entries. -/
def empty : Dict α :=
  ⟨[], List.Pairwise.nil⟩

/-- The value under `key`, if there is one. -/
def find? (d : Dict α) (key : String) : Option α :=
  d.entries.lookup key

def contains (d : Dict α) (key : String) : Bool :=
  d.entries.any (·.1 == key)

/-- Puts `value` under `key`, in place of what was there. -/
def insert (d : Dict α) (key : String) (value : α) : Dict α :=
  ⟨insertEntry key value d.entries, keysIncrease_insertEntry d.increasing⟩

/-- Replaces the value under `key` by what `f` makes of it. -/
def update (d : Dict α) (key : String) (f : Option α → α) : Dict α :=
  d.insert key (f (d.find? key))

/-! ### Look-up after a change -/

/-- A look-up at the head of a list of entries. -/
theorem lookup_entry (k key : String) (value : α) (rest : List (String × α)) :
    ((key, value) :: rest).lookup k = if k = key then some value else rest.lookup k := by
  by_cases h : k = key
  · simp [h]
  · simp [List.lookup_cons, h, beq_eq_false_iff_ne.mpr h]

theorem lookup_insertEntry (key k : String) (value : α) (entries : List (String × α)) :
    (insertEntry key value entries).lookup k =
      if k = key then some value else entries.lookup k := by
  induction entries with
  | nil => exact lookup_entry k key value []
  | cons e rest ih =>
    obtain ⟨k', v'⟩ := e
    simp only [insertEntry]
    split
    · rw [lookup_entry]
    · split
      next hgt =>
        rw [lookup_entry, lookup_entry, ih]
        by_cases h : k = k'
        · subst h
          have : k ≠ key := fun h => String.lt_irrefl key (h ▸ hgt)
          simp [this]
        · simp [h]
      next hlt hgt =>
        have : k' = key := eq_of_not_lt hgt hlt
        subst this
        rw [lookup_entry, lookup_entry]
        by_cases h : k = k' <;> simp [h]

@[simp] theorem find?_empty (key : String) : (empty : Dict α).find? key = none :=
  rfl

@[simp] theorem find?_insert (d : Dict α) (key k : String) (value : α) :
    (d.insert key value).find? k = if k = key then some value else d.find? k :=
  lookup_insertEntry key k value d.entries

@[simp] theorem find?_update (d : Dict α) (key k : String) (f : Option α → α) :
    (d.update key f).find? k = if k = key then some (f (d.find? key)) else d.find? k :=
  d.find?_insert key k _

theorem contains_eq_isSome_find? (d : Dict α) (key : String) :
    d.contains key = (d.find? key).isSome := by
  simp only [contains, find?]
  induction d.entries with
  | nil => rfl
  | cons e rest ih =>
    obtain ⟨k, v⟩ := e
    rw [List.any_cons, ih, lookup_entry]
    by_cases h : key = k
    · simp [h]
    · have h' : ¬ k = key := fun h' => h h'.symm
      simp [h, h']

/-! ### Lists -/

/-- The pairs of a list, where a later pair takes the place of an earlier one with the same key. -/
def ofList (pairs : List (String × α)) : Dict α :=
  pairs.foldl (fun d (key, value) => d.insert key value) empty

/-- The keys in increasing order. -/
def keys (d : Dict α) : List String :=
  d.entries.map Prod.fst

/-- The values in the order of their keys. -/
def values (d : Dict α) : List α :=
  d.entries.map Prod.snd

def size (d : Dict α) : Nat :=
  d.entries.length

/-- Applies `f` to every value. -/
def map (f : α → β) (d : Dict α) : Dict β :=
  ⟨d.entries.map fun (k, v) => (k, f v), by
    simpa only [KeysIncrease, List.pairwise_map] using d.increasing⟩

/-- The entries that satisfy `p`. -/
def filter (p : String → α → Bool) (d : Dict α) : Dict α :=
  ⟨d.entries.filter fun (k, v) => p k v, d.increasing.filter _⟩

end Dict

end SourceAtlas
