/-!
# Totals

The sum of a number over the items of a list.
-/

namespace SourceAtlas

/-- The sum of `f` over the items of a list. -/
def total {α : Type} (f : α → Nat) : List α → Nat
  | [] => 0
  | x :: xs => f x + total f xs

@[simp] theorem total_nil {α : Type} (f : α → Nat) : total f [] = 0 := rfl

@[simp] theorem total_cons {α : Type} (f : α → Nat) (x : α) (xs : List α) :
    total f (x :: xs) = f x + total f xs := rfl

/-- The total over two lists is the sum of their totals. -/
theorem total_append {α : Type} (f : α → Nat) (xs ys : List α) :
    total f (xs ++ ys) = total f xs + total f ys := by
  induction xs with
  | nil => simp
  | cons x xs ih => simp only [List.cons_append, total_cons, ih]; omega

/-- The total depends on the numbers of the items only. -/
theorem total_congr {α : Type} {f g : α → Nat} {xs : List α} (h : ∀ x ∈ xs, f x = g x) :
    total f xs = total g xs := by
  induction xs with
  | nil => rfl
  | cons x xs ih =>
    rw [total_cons, total_cons, h x List.mem_cons_self,
      ih fun y hy => h y (List.mem_cons_of_mem x hy)]

end SourceAtlas
