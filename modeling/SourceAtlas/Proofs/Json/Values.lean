import SourceAtlas.Json.Basic
import SourceAtlas.Text.Digits

/-!
# JSON values: depth, numbers and canonical form

Three things are said of a value as a whole: how deep it nests, which numbers are in it, and whether
it is in canonical form. Bringing a value to canonical form brings in no number
(`mem_numbers_canonical`), and a second time changes nothing (`canonical_canonical`).

All statements about values go by `Json.induct`, where the hypothesis for an array or an object is
about its members, so that they are lists like any other.
-/

namespace SourceAtlas.Json

/-- Induction over a value and all values in it. -/
@[elab_as_elim]
theorem induct {P : Json → Prop} (null : P .null) (bool : ∀ b, P (.bool b)) (num : ∀ n, P (.num n))
    (str : ∀ s, P (.str s)) (arr : ∀ items, (∀ v ∈ items, P v) → P (.arr items))
    (obj : ∀ members, (∀ e ∈ members, P e.2) → P (.obj members)) (v : Json) : P v := by
  cases v with
  | null => exact null
  | bool b => exact bool b
  | num n => exact num n
  | str s => exact str s
  | arr items =>
    refine arr items fun v hv => ?_
    -- the members are smaller than the value, which the termination proof picks up
    have hlt := List.sizeOf_lt_of_mem hv
    exact induct null bool num str arr obj v
  | obj members =>
    refine obj members fun e he => ?_
    have hlt := List.sizeOf_lt_of_mem he
    have hlt' : sizeOf e.2 < sizeOf e := by
      obtain ⟨key, v⟩ := e
      simp only [Prod.mk.sizeOf_spec]
      omega
    exact induct null bool num str arr obj e.2
termination_by sizeOf v
decreasing_by
  · simp only [Json.arr.sizeOf_spec]
    omega
  · simp only [Json.obj.sizeOf_spec]
    omega

/-! ## Depth -/

mutual

/-- How many arrays and objects stand around the innermost value, that value included. -/
def depth : Json → Nat
  | .arr items => depthItems items + 1
  | .obj members => depthMembers members + 1
  | .null | .bool _ | .num _ | .str _ => 0

/-- The depth of the deepest item. -/
def depthItems : List Json → Nat
  | [] => 0
  | v :: rest => max (depth v) (depthItems rest)

/-- The depth of the deepest member. -/
def depthMembers : List (String × Json) → Nat
  | [] => 0
  | (_, v) :: rest => max (depth v) (depthMembers rest)

end

/-! ## Numbers -/

namespace Number

/-- Whether a number is kept as an integer. -/
def isInt : Number → Bool
  | .int _ => true
  | .real _ => false

/-- Whether a number has no fraction, however it is kept. -/
def isWhole : Number → Bool
  | .int _ => true
  | .real x => x.toRatio.1 % x.toRatio.2 == 0

/-- What 64 bits hold, with or without sign; a floating point number always fits. -/
def Fits : Number → Prop
  | .int i => -(Text.maxSigned + 1 : Int) ≤ i ∧ i ≤ Text.maxUnsigned
  | .real _ => True

end Number

mutual

/-- The numbers in a value. -/
def numbers : Json → List Number
  | .num n => [n]
  | .arr items => numbersOfItems items
  | .obj members => numbersOfMembers members
  | .null | .bool _ | .str _ => []

def numbersOfItems : List Json → List Number
  | [] => []
  | v :: rest => numbers v ++ numbersOfItems rest

def numbersOfMembers : List (String × Json) → List Number
  | [] => []
  | (_, v) :: rest => numbers v ++ numbersOfMembers rest

end

theorem mem_numbersOfItems {items : List Json} {n : Number} :
    n ∈ numbersOfItems items ↔ ∃ v ∈ items, n ∈ v.numbers := by
  induction items with
  | nil => simp [numbersOfItems]
  | cons v rest ih => simp [numbersOfItems, ih]

theorem mem_numbersOfMembers {members : List (String × Json)} {n : Number} :
    n ∈ numbersOfMembers members ↔ ∃ e ∈ members, n ∈ e.2.numbers := by
  induction members with
  | nil => simp [numbersOfMembers]
  | cons e rest ih => simp [numbersOfMembers, ih]

theorem mem_numbers_arr {items : List Json} {n : Number} :
    n ∈ (Json.arr items).numbers ↔ ∃ v ∈ items, n ∈ v.numbers := by
  rw [numbers, mem_numbersOfItems]

theorem mem_numbers_obj {members : List (String × Json)} {n : Number} :
    n ∈ (Json.obj members).numbers ↔ ∃ e ∈ members, n ∈ e.2.numbers := by
  rw [numbers, mem_numbersOfMembers]

/-! ## Canonical form -/

theorem canonicalItems_eq_map (items : List Json) : canonicalItems items = items.map canonical := by
  induction items with
  | nil => rw [canonicalItems, List.map_nil]
  | cons v rest ih => rw [canonicalItems, ih, List.map_cons]

/-- What stands in a list after an insertion was there, or is what was inserted. -/
theorem mem_insertEntry {key : String} {v : Json} {entries : List (String × Json)}
    {e : String × Json} (h : e ∈ Dict.insertEntry key v entries) : e = (key, v) ∨ e ∈ entries := by
  induction entries with
  | nil => exact Or.inl (List.mem_singleton.mp h)
  | cons first rest ih =>
    unfold Dict.insertEntry at h
    -- the three places of the new entry: in front, further down, or in place of its key
    split at h
    · exact List.mem_cons.mp h
    · split at h
      · rcases List.mem_cons.mp h with rfl | h
        · exact Or.inr List.mem_cons_self
        · exact (ih h).imp_right (List.mem_cons_of_mem _)
      · exact (List.mem_cons.mp h).imp_right (List.mem_cons_of_mem _)

/-- The members of a canonical object were seen before, or are canonical forms of new ones. -/
theorem mem_canonicalMembers {members seen : List (String × Json)} {e : String × Json}
    (h : e ∈ canonicalMembers members seen) :
    e ∈ seen ∨ ∃ e' ∈ members, e = (e'.1, e'.2.canonical) := by
  induction members generalizing seen with
  | nil =>
    rw [canonicalMembers] at h
    exact Or.inl h
  | cons first rest ih =>
    rw [canonicalMembers] at h
    -- `seen` of the rest holds the first member too
    rcases ih h with h | ⟨e', he', heq⟩
    · rcases mem_insertEntry h with rfl | h
      · exact Or.inr ⟨first, List.mem_cons_self, rfl⟩
      · exact Or.inl h
    · exact Or.inr ⟨e', List.mem_cons_of_mem _ he', heq⟩

theorem keysIncrease_canonicalMembers {members seen : List (String × Json)}
    (h : KeysIncrease seen) : KeysIncrease (canonicalMembers members seen) := by
  induction members generalizing seen with
  | nil =>
    rw [canonicalMembers]
    exact h
  | cons first rest ih =>
    rw [canonicalMembers]
    exact ih (Dict.keysIncrease_insertEntry h)

/-- A key above all others goes to the end. -/
theorem insertEntry_last {key : String} {v : Json} {entries : List (String × Json)}
    (h : ∀ e ∈ entries, e.1 < key) : Dict.insertEntry key v entries = entries ++ [(key, v)] := by
  induction entries with
  | nil => rfl
  | cons first rest ih =>
    have hlt : first.1 < key := h first List.mem_cons_self
    -- the search for the place passes every entry
    have hnot : ¬ key < first.1 := fun hgt => String.lt_irrefl key (String.lt_trans hgt hlt)
    unfold Dict.insertEntry
    rw [if_neg hnot, if_pos hlt, ih fun e he => h e (List.mem_cons_of_mem _ he), List.cons_append]

/-- Canonical members in order stay as they are. -/
theorem canonicalMembers_eq_append {members seen : List (String × Json)}
    (horder : KeysIncrease (seen ++ members)) (hvalues : ∀ e ∈ members, e.2.canonical = e.2) :
    canonicalMembers members seen = seen ++ members := by
  induction members generalizing seen with
  | nil => rw [canonicalMembers, List.append_nil]
  | cons first rest ih =>
    -- what was seen comes before the first member, so it goes to the end
    have hlast : ∀ e ∈ seen, e.1 < first.1 := fun e he =>
      (List.pairwise_append.mp horder).2.2 e he first List.mem_cons_self
    have hsplit : seen ++ first :: rest = (seen ++ [first]) ++ rest := by simp
    rw [canonicalMembers, hvalues first List.mem_cons_self, insertEntry_last hlast, hsplit]
    exact ih (hsplit ▸ horder) fun e he => hvalues e (List.mem_cons_of_mem _ he)

/-- A canonical value is its own canonical form. -/
theorem canonical_canonical (v : Json) : v.canonical.canonical = v.canonical := by
  induction v using induct with
  | null | bool | num | str => simp only [canonical]
  | arr items ih =>
    simp only [canonical, canonicalItems_eq_map, List.map_map]
    exact congrArg Json.arr (List.map_congr_left ih)
  | obj members ih =>
    -- the members are in order by construction and canonical by the hypothesis
    have horder : KeysIncrease ([] ++ canonicalMembers members []) :=
      keysIncrease_canonicalMembers List.Pairwise.nil
    have hvalues : ∀ e ∈ canonicalMembers members [], e.2.canonical = e.2 := by
      intro e he
      rcases mem_canonicalMembers he with he | ⟨e', he', rfl⟩
      · cases he
      · exact ih e' he'
    rw [canonical, canonical]
    exact congrArg Json.obj (canonicalMembers_eq_append horder hvalues)

/-- The numbers of the canonical form were there before. -/
theorem mem_numbers_canonical {v : Json} {n : Number} (h : n ∈ v.canonical.numbers) :
    n ∈ v.numbers := by
  induction v using induct with
  | null | bool | num | str =>
    simp only [canonical] at h
    exact h
  | arr items ih =>
    rw [canonical, canonicalItems_eq_map, mem_numbers_arr] at h
    obtain ⟨w, hw, hn⟩ := h
    obtain ⟨v, hv, rfl⟩ := List.mem_map.mp hw
    exact mem_numbers_arr.mpr ⟨v, hv, ih v hv hn⟩
  | obj members ih =>
    rw [canonical, mem_numbers_obj] at h
    obtain ⟨e, he, hn⟩ := h
    -- nothing was seen before the first member
    rcases mem_canonicalMembers he with he | ⟨e', he', rfl⟩
    · cases he
    · exact mem_numbers_obj.mpr ⟨e', he', ih e' he' hn⟩

end SourceAtlas.Json
