import SourceAtlas.Tree.Cursor
import Mathlib.Data.List.Basic

/-!
# Places in a tree, in document order

`Cursor.preorder` lists places by recursion on the tree under a cursor. Here it is tied to the
places themselves:

* **`Reaches`**: one place is at or below another, step by step from parents to children;
* **`mem_preorder`**: a pruned list holds the places at or below its root that have no pruned place
  properly above them, the root included, and no others;
* **`preorder_precedes`**: it lists them in document order, which is the order of the child numbers
  on the way from the root of the tree, read as words of a dictionary.

Proofs about the list follow `preorder_eq`, one equation for a place and its children, by induction
on the tree under the cursor (`induct`).
-/

namespace SourceAtlas.Cursor

/-! ## Children -/

theorem mem_children {c d : Cursor} :
    d ∈ c.children ↔ ∃ i t, c.focus.children[i]? = some t
      ∧ d = ⟨t, i :: c.address, c.focus :: c.above⟩ := by
  unfold children
  rw [List.mem_mapIdx]
  constructor
  · rintro ⟨i, hi, rfl⟩
    exact ⟨i, _, List.getElem?_eq_getElem hi, rfl⟩
  · rintro ⟨i, t, ht, rfl⟩
    obtain ⟨hi, rfl⟩ := List.getElem?_eq_some_iff.mp ht
    exact ⟨i, hi, rfl⟩

theorem getElem?_children (c : Cursor) (i : Nat) :
    c.children[i]? =
      c.focus.children[i]?.map fun t => ⟨t, i :: c.address, c.focus :: c.above⟩ := by
  unfold children
  rw [List.getElem?_mapIdx]

theorem parent?_of_mem_children {c d : Cursor} (h : d ∈ c.children) : d.parent? = some c := by
  obtain ⟨i, t, -, rfl⟩ := mem_children.mp h
  rfl

theorem exists_address_of_mem_children {c d : Cursor} (h : d ∈ c.children) :
    ∃ i, d.address = i :: c.address ∧ c.children[i]? = some d := by
  obtain ⟨i, t, ht, rfl⟩ := mem_children.mp h
  refine ⟨i, rfl, ?_⟩
  rw [getElem?_children, ht, Option.map_some]

/-- A child is told from its siblings by its address. -/
theorem eq_of_mem_children {c d e : Cursor} (hd : d ∈ c.children) (he : e ∈ c.children)
    (h : d.address = e.address) : d = e := by
  obtain ⟨i, hi, hd⟩ := exists_address_of_mem_children hd
  obtain ⟨j, hj, he⟩ := exists_address_of_mem_children he
  -- the number in front tells the child
  rw [hi, hj] at h
  rw [(List.cons.inj h).1, he] at hd
  exact (Option.some.inj hd).symm

/-- Induction on the tree under a cursor. -/
theorem induct {motive : Cursor → Prop}
    (step : ∀ c : Cursor, (∀ d ∈ c.children, motive d) → motive c) (c : Cursor) : motive c := by
  refine step c fun d hd => ?_
  have : sizeOf d.focus < sizeOf c.focus := by
    obtain ⟨i, t, ht, rfl⟩ := mem_children.mp hd
    have hmem := List.sizeOf_lt_of_mem (List.mem_of_getElem? ht)
    obtain ⟨⟨l, ts⟩, address, above⟩ := c
    show sizeOf t < sizeOf (Tree.node l ts)
    simp only [Tree.node.sizeOf_spec, Tree.children] at hmem ⊢
    omega
  exact induct step d
termination_by sizeOf c.focus

/-! ## The places below a place -/

/-- A place is at or below another. -/
inductive Reaches (c : Cursor) : Cursor → Prop where
  | refl : Reaches c c
  | child {p d : Cursor} (h : Reaches c p) (hd : d ∈ p.children) : Reaches c d

/-- A place is properly above another. -/
def IsAbove (c x : Cursor) : Prop :=
  ∃ d ∈ c.children, d.Reaches x

theorem Reaches.trans {a b c : Cursor} (h : a.Reaches b) (h' : b.Reaches c) : a.Reaches c := by
  induction h' with
  | refl => exact h
  | child _ hd ih => exact ih.child hd

theorem IsAbove.reaches {c x : Cursor} (h : c.IsAbove x) : c.Reaches x := by
  obtain ⟨d, hd, hx⟩ := h
  exact (Reaches.refl.child hd).trans hx

theorem reaches_iff {c x : Cursor} : c.Reaches x ↔ x = c ∨ c.IsAbove x := by
  constructor
  · intro h
    induction h with
    | refl => exact Or.inl rfl
    | child _ hd ih =>
      -- the first step down is kept while the way grows at its end
      rcases ih with rfl | ⟨e, he, hp⟩
      · exact Or.inr ⟨_, hd, .refl⟩
      · exact Or.inr ⟨e, he, hp.child hd⟩
  · rintro (rfl | h)
    · exact .refl
    · exact h.reaches

/-- A place below another is a child of one at or below that. -/
theorem IsAbove.exists_parent {c x : Cursor} (h : c.IsAbove x) :
    ∃ p, c.Reaches p ∧ x ∈ p.children := by
  obtain ⟨d, hd, hx⟩ := h
  cases hx with
  | refl => exact ⟨c, .refl, hd⟩
  | child hp hx => exact ⟨_, (Reaches.refl.child hd).trans hp, hx⟩

/-- The address of a place extends those of the places above it. -/
theorem Reaches.exists_address {c x : Cursor} (h : c.Reaches x) :
    ∃ way, x.address = way ++ c.address := by
  induction h with
  | refl => exact ⟨[], rfl⟩
  | child _ hd ih =>
    obtain ⟨way, hway⟩ := ih
    obtain ⟨i, hi, -⟩ := exists_address_of_mem_children hd
    exact ⟨i :: way, by rw [hi, hway, List.cons_append]⟩

theorem IsAbove.exists_address {c x : Cursor} (h : c.IsAbove x) :
    ∃ way i, x.address = way ++ i :: c.address := by
  obtain ⟨d, hd, hx⟩ := h
  obtain ⟨way, hway⟩ := hx.exists_address
  obtain ⟨i, hi, -⟩ := exists_address_of_mem_children hd
  exact ⟨way, i, by rw [hway, hi]⟩

theorem IsAbove.address_lt {c x : Cursor} (h : c.IsAbove x) :
    c.address.length < x.address.length := by
  obtain ⟨way, i, hway⟩ := h.exists_address
  rw [hway, List.length_append, List.length_cons]
  omega

theorem not_isAbove_self (c : Cursor) : ¬ c.IsAbove c := fun h =>
  Nat.lt_irrefl _ h.address_lt

/-- A place is below one child of a place at most. -/
theorem eq_of_children_reach {c d e x : Cursor} (hd : d ∈ c.children) (he : e ∈ c.children)
    (hdx : d.Reaches x) (hex : e.Reaches x) : d = e := by
  obtain ⟨way, hway⟩ := hdx.exists_address
  obtain ⟨way', hway'⟩ := hex.exists_address
  refine eq_of_mem_children hd he ?_
  obtain ⟨i, hi, -⟩ := exists_address_of_mem_children hd
  obtain ⟨j, hj, -⟩ := exists_address_of_mem_children he
  -- the address of the place ends in both, and they are equally long
  have hlength : d.address.length = e.address.length := by
    rw [hi, hj, List.length_cons, List.length_cons]
  exact (List.append_inj' (hway.symm.trans hway') hlength).2

/-! ## The list of places -/

section Preorder

variable (prune : Cursor → Bool)

/-- The list for some siblings: the lists for each of them. -/
theorem walkForest_eq (ts : List Tree) (i : Nat) (address : List Nat) (above : List Tree) :
    walkForest prune ts i address above =
      (ts.mapIdx fun j t => (⟨t, (i + j) :: address, above⟩ : Cursor)).flatMap
        (preorder prune) := by
  induction ts generalizing i with
  | nil =>
    rw [walkForest]
    rfl
  | cons t ts ih =>
    rw [walkForest, ih, List.mapIdx_cons, List.flatMap_cons]
    -- the siblings are numbered on from the first
    simp only [Nat.add_zero, Nat.add_right_comm i 1, Nat.add_assoc i]
    rfl

/-- A place is listed first, and then what its children give unless the place is pruned. -/
theorem preorder_eq (c : Cursor) :
    c.preorder prune = c :: if prune c then [] else c.children.flatMap (preorder prune) := by
  obtain ⟨⟨l, ts⟩, address, above⟩ := c
  unfold preorder children
  rw [walkTree, walkForest_eq]
  simp only [Nat.zero_add]
  rfl

variable {prune}

/-- The places of a list are at or below its root. -/
theorem reaches_of_mem_preorder {c x : Cursor} (h : x ∈ c.preorder prune) : c.Reaches x := by
  induction c using induct with
  | step c ih =>
    rw [preorder_eq, List.mem_cons] at h
    rcases h with rfl | h
    · exact .refl
    · split at h
      · cases h
      · obtain ⟨d, hd, hx⟩ := List.mem_flatMap.mp h
        exact IsAbove.reaches ⟨d, hd, ih d hd hx⟩

/-- The places above a place that is listed, from the root of the list on, are not pruned. -/
theorem prune_eq_false_of_mem_preorder {c x y : Cursor} (h : x ∈ c.preorder prune)
    (hy : c.Reaches y) (hyx : y.IsAbove x) : prune y = false := by
  induction c using induct with
  | step c ih =>
    rw [preorder_eq, List.mem_cons] at h
    rcases h with rfl | h
    · -- nothing at or below the root is above it
      obtain ⟨way, hway⟩ := hy.exists_address
      have hlt := hyx.address_lt
      rw [hway, List.length_append] at hlt
      omega
    · split at h
      · cases h
      next hprune =>
        obtain ⟨d, hd, hx⟩ := List.mem_flatMap.mp h
        rcases reaches_iff.mp hy with rfl | ⟨e, he, hey⟩
        · exact Bool.eq_false_iff.mpr hprune
        · -- the child above `y` is the one in whose list `x` stands
          have hed :=
            eq_of_children_reach he hd (hey.trans hyx.reaches) (reaches_of_mem_preorder hx)
          exact ih d hd hx (hed ▸ hey)

/-- A list holds exactly the places at or below its root without a pruned place above them. -/
theorem mem_preorder {c x : Cursor} :
    x ∈ c.preorder prune ↔
      c.Reaches x ∧ ∀ y, c.Reaches y → y.IsAbove x → prune y = false := by
  refine ⟨fun h => ⟨reaches_of_mem_preorder h, fun y => prune_eq_false_of_mem_preorder h⟩, ?_⟩
  rintro ⟨hx, hprune⟩
  induction c using induct with
  | step c ih =>
    rw [preorder_eq, List.mem_cons]
    -- the root is listed anyway; to be below it takes that it is not pruned
    rcases reaches_iff.mp hx with rfl | habove
    · exact Or.inl rfl
    · rw [if_neg (Bool.eq_false_iff.mp (hprune c .refl habove))]
      obtain ⟨d, hd, hdx⟩ := habove
      refine Or.inr (List.mem_flatMap.mpr ⟨d, hd, ih d hd hdx fun y hy => ?_⟩)
      exact hprune y ((Reaches.refl.child hd).trans hy)

/-- With a place that is not pruned its children are listed. -/
theorem mem_preorder_child {c p d : Cursor} (hp : p ∈ c.preorder prune) (hprune : prune p = false)
    (hd : d ∈ p.children) : d ∈ c.preorder prune := by
  obtain ⟨hreach, habove⟩ := mem_preorder.mp hp
  refine mem_preorder.mpr ⟨hreach.child hd, fun y hy hyd => ?_⟩
  -- what is above the child is its parent or above that
  obtain ⟨q, hq, hdq⟩ := hyd.exists_parent
  obtain rfl : q = p :=
    Option.some.inj ((parent?_of_mem_children hdq).symm.trans (parent?_of_mem_children hd))
  rcases reaches_iff.mp hq with rfl | hyp
  · exact hprune
  · exact habove y hy hyp

/-- Conditions that agree on the places below a cursor prune alike. -/
theorem preorder_congr {prune' : Cursor → Bool} {c : Cursor}
    (h : ∀ x, c.Reaches x → prune x = prune' x) : c.preorder prune = c.preorder prune' := by
  induction c using induct with
  | step c ih =>
    rw [preorder_eq, preorder_eq, h c .refl]
    have hchildren : c.children.flatMap (preorder prune) =
        c.children.flatMap (preorder prune') := by
      refine List.flatMap_congr fun d hd => ih d hd fun x hx => ?_
      exact h x ((Reaches.refl.child hd).trans hx)
    rw [hchildren]

/-! ## Document order -/

/--
Document order: a place comes before those below it, and a child with all that is below it before
the next one.
-/
def Precedes (x y : Cursor) : Prop :=
  x.address.reverse < y.address.reverse

/-- Places in document order are different ones. -/
theorem nodup_of_precedes {places : List Cursor} (h : places.Pairwise Precedes) : places.Nodup := by
  refine h.imp fun {x y} hlt heq => ?_
  subst heq
  exact List.lt_irrefl _ hlt

/-- A place comes before those below it. -/
theorem IsAbove.precedes {c x : Cursor} (h : c.IsAbove x) : c.Precedes x := by
  obtain ⟨way, i, hway⟩ := h.exists_address
  -- read from the root, the address of a place starts that of a place below it
  have hlt : c.address.reverse ++ [] < c.address.reverse ++ i :: way.reverse :=
    List.append_left_lt (List.nil_lt_cons i _)
  unfold Precedes
  rw [hway]
  simpa using hlt

/-- What is at or below a child comes before what is at or below a later one. -/
theorem precedes_of_children {c d e x y : Cursor} {i j : Nat} (hij : i < j)
    (hd : d.address = i :: c.address) (he : e.address = j :: c.address) (hx : d.Reaches x)
    (hy : e.Reaches y) : x.Precedes y := by
  obtain ⟨way, hway⟩ := hx.exists_address
  obtain ⟨way', hway'⟩ := hy.exists_address
  have hlt : c.address.reverse ++ i :: way.reverse < c.address.reverse ++ j :: way'.reverse :=
    List.append_left_lt (List.cons_lt_cons_iff.mpr (Or.inl hij))
  unfold Precedes
  rw [hway, hway', hd, he]
  simpa using hlt

/-- The children stand in the order of their numbers. -/
theorem children_pairwise (c : Cursor) :
    c.children.Pairwise fun d e =>
      ∃ i j, i < j ∧ d.address = i :: c.address ∧ e.address = j :: c.address := by
  rw [List.pairwise_iff_getElem]
  intro i j hi hj hij
  refine ⟨i, j, hij, ?_, ?_⟩ <;> simp only [children, List.getElem_mapIdx]

/-- A list is in document order, so that no place stands in it twice. -/
theorem preorder_precedes (c : Cursor) : (c.preorder prune).Pairwise Precedes := by
  induction c using induct with
  | step c ih =>
    rw [preorder_eq, List.pairwise_cons]
    split
    · simp
    constructor
    · intro x hx
      obtain ⟨d, hd, hx⟩ := List.mem_flatMap.mp hx
      exact IsAbove.precedes ⟨d, hd, reaches_of_mem_preorder hx⟩
    -- what is below one child stands before what is below a later one
    · refine List.pairwise_flatMap.mpr ⟨ih, (children_pairwise c).imp ?_⟩
      rintro d e ⟨i, j, hij, hd, he⟩ x hx y hy
      exact precedes_of_children hij hd he (reaches_of_mem_preorder hx) (reaches_of_mem_preorder hy)

end Preorder

end SourceAtlas.Cursor
