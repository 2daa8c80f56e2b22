import Mathlib.Data.List.Basic

/-!
# Going over a list

A loop of the program either folds a list into a state or maps it by a step that may give nothing.
Here are the facts about both that do not depend on what the steps do, only on what one step is
known to do:

* **`foldl_append_toList`**: a fold whose steps append at most one item collects these items;
* **`mapM_option_eq`**, **`mapM_except_eq`**: a step that fails on some items and is a plain
  function on the others makes the whole fail, or else maps the list by that function;
* **`mapM_map`**, **`forall_of_mapM`**: what was written item by item is read item by item.
-/

namespace SourceAtlas.Traversal

variable {α β γ σ ε : Type}

/-- A fold that appends at most one item at each step collects what the steps give. -/
theorem foldl_append_toList {items : σ → List β} {step : σ → α → σ} {f : α → Option β}
    (hstep : ∀ s a, items (step s a) = items s ++ (f a).toList) (as : List α) (s : σ) :
    items (as.foldl step s) = items s ++ as.filterMap f := by
  induction as generalizing s with
  | nil => simp
  | cons a as ih =>
    rw [List.foldl_cons, ih, hstep, List.append_assoc, List.filterMap_cons]
    cases f a with
    | none => rfl
    | some b => rfl

/-- A list is gone through to its end if every item has a result. -/
theorem mapM_option_eq (f : α → Option β) (items : List α) :
    items.mapM f = if items.all fun a => (f a).isSome then some (items.filterMap f) else none := by
  induction items with
  | nil => rfl
  | cons a rest ih =>
    rw [List.mapM_cons, ih]
    cases ha : f a with
    | none => simp [ha]
    | some b => cases hall : rest.all fun a => (f a).isSome <;> simp [ha, hall]

/-- A step with a single way to fail fails on a list if it fails on one of its items. -/
theorem mapM_except_eq {f : α → Except ε β} {g : α → β} {fails : α → Bool} {e : ε}
    (h : ∀ a, f a = if fails a then .error e else .ok (g a)) (items : List α) :
    items.mapM f = if items.any fails then .error e else .ok (items.map g) := by
  induction items with
  | nil => rfl
  | cons a rest ih =>
    rw [List.mapM_cons, ih, h, List.any_cons, List.map_cons]
    -- the first failure ends it, and there is one kind only
    cases fails a with
    | true => rfl
    | false => cases rest.any fails <;> rfl

/-- Items that are read one by one are read together. -/
theorem mapM_map {read? : γ → Option β} {write : α → γ} {keep : α → β} {items : List α}
    (h : ∀ a ∈ items, read? (write a) = some (keep a)) :
    (items.map write).mapM read? = some (items.map keep) := by
  induction items with
  | nil => rfl
  | cons a rest ih =>
    have hrest := ih fun b hb => h b (List.mem_cons_of_mem a hb)
    rw [List.map_cons, List.mapM_cons, h a List.mem_cons_self, hrest]
    rfl

/-- What holds of all items that are read one by one. -/
theorem forall_of_mapM {read? : α → Option β} {P : β → Prop} {items : List α} {values : List β}
    (h : items.mapM read? = some values) (hread : ∀ a ∈ items, ∀ b, read? a = some b → P b) :
    ∀ b ∈ values, P b := by
  induction items generalizing values with
  | nil =>
    rw [List.mapM_nil] at h
    obtain rfl := Option.some.inj h
    simp
  | cons a rest ih =>
    rw [List.mapM_cons] at h
    -- the first item was read, and then the others
    obtain ⟨b, hb, h⟩ := Option.bind_eq_some_iff.mp h
    obtain ⟨bs, hbs, h⟩ := Option.bind_eq_some_iff.mp h
    obtain rfl := Option.some.inj h
    rw [List.forall_mem_cons]
    exact ⟨hread a List.mem_cons_self b hb,
      ih hbs fun a' ha' => hread a' (List.mem_cons_of_mem a ha')⟩

/-- A function that changes none of the items of a list does not change the list. -/
theorem map_eq_self {f : α → α} {items : List α} (h : ∀ a ∈ items, f a = a) :
    items.map f = items := by
  rw [List.map_congr_left (g := id) h, List.map_id]

end SourceAtlas.Traversal
