import SourceAtlas.Proofs.Tree.Places

/-!
# Walking a tree step by step

A walk stands at a place and is asked for the next one. It goes down to the first child unless the
place is pruned, else to the next sibling, else up until there is a sibling; at the root it was
started from it ends. The decision to prune is taken when the walk is to go on, one step after the
place was given out.

* **`below`** and **`After`**: the places that are still to come, read off where the walk stands:
  what is below the place, and what comes after it at each level up to the root;
* **`next_of_after`**: one step gives out the first of them and leaves the others;
* **`yields_start`**: a whole walk therefore gives out the places of `Cursor.preorder`, one by one.

With what `Cursor.preorder` lists (`mem_preorder`, `preorder_precedes`) this settles which calls of
a body are direct (`walk_directCalls`).
-/

namespace SourceAtlas

namespace Cursor

/-! ## Moves -/

/--
The first sibling that comes next, of a place or of one above it, where `address` and `above` lead
to the place. The place at the address `limit` has neither siblings nor a parent.
-/
def climbFrom (limit : List Nat) : List Nat → List Tree → Option Cursor
  | i :: is, t :: ts =>
    if i :: is = limit then none
    else
      match (⟨t, is, ts⟩ : Cursor).children[i + 1]? with
      | some s => some s
      | none => climbFrom limit is ts
  | _, _ => none

/-- The place that comes after all that is below a place, without leaving what is below the root. -/
def climb? (root c : Cursor) : Option Cursor :=
  climbFrom root.address c.address c.above

theorem climb?_root (root : Cursor) : root.climb? root = none := by
  unfold climb?
  cases root.address with
  | nil => rfl
  | cons i is => cases root.above <;> simp [climbFrom]

/-- Below the root the next sibling comes next, and without one what comes after the parent. -/
theorem climb?_child {root p c : Cursor} {i : Nat} (hp : root.Reaches p)
    (hc : p.children[i]? = some c) : root.climb? c = (p.children[i + 1]?).or (root.climb? p) := by
  rw [getElem?_children] at hc
  obtain ⟨t, -, rfl⟩ := Option.map_eq_some_iff.mp hc
  -- a child has a longer address than the root it is below
  have hne : i :: p.address ≠ root.address := by
    intro heq
    obtain ⟨way, hway⟩ := hp.exists_address
    have hlength := congrArg List.length heq
    rw [hway, List.length_cons, List.length_append] at hlength
    omega
  show climbFrom root.address (i :: p.address) (p.focus :: p.above) = _
  unfold climbFrom
  rw [if_neg hne]
  cases p.children[i + 1]? <;> rfl

end Cursor

/-- A walk over what is at and below a root. -/
structure Walk where
  root : Cursor
  /-- The place that was given out last. -/
  place : Cursor
  started : Bool := false
  finished : Bool := false

namespace Walk

open Cursor

def start (c : Cursor) : Walk :=
  { root := c, place := c }

/-- The next place, with the walk from there on. -/
def next (prune : Cursor → Bool) (w : Walk) : Option Cursor × Walk :=
  if w.finished then (none, w)
  else if !w.started then (some w.place, { w with started := true })
  else
    match if prune w.place then none else w.place.children.head? with
    | some d => (some d, { w with place := d })
    | none =>
      match climb? w.root w.place with
      | some s => (some s, { w with place := s })
      | none => (none, { w with place := w.root, finished := true })

/-- What a walk gives out in its next steps, at most `n`. -/
def yields (prune : Cursor → Bool) : Nat → Walk → List Cursor
  | 0, _ => []
  | n + 1, w =>
    match w.next prune with
    | (some x, w) => x :: yields prune n w
    | (none, _) => []

/-! ## What is still to come -/

section ToCome

variable (prune : Cursor → Bool)

/-- The places properly below a place that are not below a pruned one. -/
def below (c : Cursor) : List Cursor :=
  if prune c then [] else c.children.flatMap (preorder prune)

theorem preorder_eq_below (c : Cursor) : c.preorder prune = c :: below prune c :=
  preorder_eq prune c

/--
The list is what comes after all that is below a place: nothing for the root, and for a child the
lists of its later siblings and then what comes after its parent.
-/
inductive After (root : Cursor) : Cursor → List Cursor → Prop where
  | root : After root root []
  | child {p c : Cursor} {rest : List Cursor} {i : Nat} (h : After root p rest)
      (hc : p.children[i]? = some c) :
      After root c ((p.children.drop (i + 1)).flatMap (preorder prune) ++ rest)

variable {prune}

theorem After.reaches {root c : Cursor} {rest : List Cursor} (h : After prune root c rest) :
    root.Reaches c := by
  induction h with
  | root => exact .refl
  | child _ hc ih => exact ih.child (List.mem_of_getElem? hc)

/-- Climbing leads to the first of the places that come after. -/
theorem climb?_of_after {root c : Cursor} {rest : List Cursor} (h : After prune root c rest) :
    (climb? root c = none ∧ rest = [])
      ∨ ∃ s rest', climb? root c = some s ∧ After prune root s rest'
        ∧ rest = s :: (below prune s ++ rest') := by
  induction h with
  | root => exact Or.inl ⟨climb?_root root, rfl⟩
  | @child p c rest i hp hc ih =>
    rw [climb?_child hp.reaches hc]
    cases hnext : p.children[i + 1]? with
    | none =>
      -- the last child: the walk goes on after the parent
      rw [List.drop_eq_nil_of_le (List.getElem?_eq_none_iff.mp hnext)]
      exact ih
    | some s =>
      -- the next sibling heads what is left of the children
      refine Or.inr ⟨s, _, rfl, hp.child hnext, ?_⟩
      obtain ⟨hlt, hs⟩ := List.getElem?_eq_some_iff.mp hnext
      rw [List.drop_eq_getElem_cons hlt, hs, List.flatMap_cons, preorder_eq_below]
      simp only [List.cons_append, List.append_assoc]

/-- The first child of a place that is not pruned is the first of the places below it. -/
theorem below_eq_of_head? {root c d : Cursor} {rest : List Cursor} (h : After prune root c rest)
    (hprune : prune c = false) (hd : c.children.head? = some d) :
    ∃ rest', After prune root d rest'
      ∧ below prune c ++ rest = d :: (below prune d ++ rest') := by
  -- the first child comes with its later siblings, which the rest takes up
  refine ⟨_, h.child (i := 0) (List.head?_eq_getElem? ▸ hd), ?_⟩
  obtain ⟨ds, hds⟩ := List.head?_eq_some_iff.mp hd
  unfold below
  rw [hprune, hds, if_neg Bool.false_ne_true, List.flatMap_cons, preorder_eq_below]
  simp only [Nat.zero_add, List.drop_one, List.tail_cons, List.cons_append, List.append_assoc]
  rfl

/-- One step of a walk gives out the first place that is still to come, and leaves the others. -/
theorem next_of_after {w : Walk} {rest : List Cursor} (hstarted : w.started = true)
    (hfinished : w.finished = false) (h : After prune w.root w.place rest) :
    ((w.next prune).1 = none ∧ below prune w.place ++ rest = [])
      ∨ ∃ x rest', w.next prune = (some x, { w with place := x }) ∧ After prune w.root x rest'
        ∧ below prune w.place ++ rest = x :: (below prune x ++ rest') := by
  unfold next
  rw [if_neg (Bool.eq_false_iff.mp hfinished), if_neg (by simp [hstarted])]
  split
  next d hd =>
    -- down to the first child
    have hprune : prune w.place = false := by
      cases hp : prune w.place with
      | false => rfl
      | true =>
        rw [hp, if_pos rfl] at hd
        cases hd
    rw [if_neg (Bool.eq_false_iff.mp hprune)] at hd
    obtain ⟨rest', hafter, heq⟩ := below_eq_of_head? h hprune hd
    exact Or.inr ⟨d, rest', rfl, hafter, heq⟩
  next hnone =>
    -- nothing below: up to the first place that comes after
    have hbelow : below prune w.place = [] := by
      unfold below
      split at hnone
      · rw [if_pos (by assumption)]
      · rw [List.head?_eq_none_iff.mp hnone, List.flatMap_nil, ite_self]
    rw [hbelow, List.nil_append]
    rcases climb?_of_after h with ⟨hclimb, rfl⟩ | ⟨s, rest', hclimb, hafter, rfl⟩
    · rw [hclimb]
      exact Or.inl ⟨rfl, rfl⟩
    · rw [hclimb]
      exact Or.inr ⟨s, rest', rfl, hafter, rfl⟩

/-- A walk that has begun gives out what is still to come, in that order. -/
theorem yields_of_after {w : Walk} {rest : List Cursor} (hstarted : w.started = true)
    (hfinished : w.finished = false) (h : After prune w.root w.place rest) (n : Nat) :
    w.yields prune n = (below prune w.place ++ rest).take n := by
  -- the steps that are left, with the place and what comes after it general
  induction n generalizing w rest with
  | zero => rfl
  | succ n ih =>
    rcases next_of_after hstarted hfinished h with ⟨hnone, hdone⟩ | ⟨x, rest', hnext, hafter, hmore⟩
    · rw [hdone, List.take_nil]
      unfold yields
      split
      next hsome =>
        rw [hsome] at hnone
        cases hnone
      next => rfl
    · rw [hmore, List.take_succ_cons]
      unfold yields
      rw [hnext]
      exact congrArg (x :: ·) (ih hstarted hfinished hafter)

/-- A whole walk gives out the places at and below its root in document order, but not those below a
pruned one, and then nothing more. -/
theorem yields_start (c : Cursor) (n : Nat) :
    (start c).yields prune n = (c.preorder prune).take n := by
  cases n with
  | zero => rfl
  | succ n =>
    rw [preorder_eq_below, List.take_succ_cons]
    -- the first step gives out the root itself; nothing comes after all that is below it
    have hafter : After prune (start c).root (start c).place [] := .root
    have hrest := yields_of_after (w := { start c with started := true }) rfl rfl hafter n
    rw [List.append_nil] at hrest
    exact congrArg (c :: ·) hrest

end ToCome

end Walk

/-! ## Direct calls -/

namespace Cursor

/-- A place is the argument list of a call: the first child of its parent in that field, where the
parent is of a kind of calls. -/
def IsArgumentList (callKinds : List String) (x : Cursor) : Prop :=
  ∃ p, x.parent? = some p ∧ p.kind ∈ callKinds ∧ p.child? "arguments" = some x

theorem isArguments_iff {callKinds : List String} {p x : Cursor} (hx : x ∈ p.children) :
    x.isArguments callKinds = true ↔ x.IsArgumentList callKinds := by
  unfold isArguments IsArgumentList
  rw [parent?_of_mem_children hx]
  simp only [Bool.and_eq_true, List.contains_iff_mem, Option.some.injEq, exists_eq_left']
  refine and_congr_right fun _ => ?_
  cases hfind : p.child? "arguments" with
  | none => simp
  | some y =>
    simp only [Option.map_some, Option.getD_some, beq_iff_eq, Option.some.injEq]
    -- siblings with one address are the same place
    refine ⟨fun h => ?_, fun h => h ▸ rfl⟩
    exact eq_of_mem_children (List.mem_of_find?_eq_some hfind) hx h

/-- A place lies strictly between two others on the way down. -/
def IsBetween (c y x : Cursor) : Prop :=
  c.IsAbove y ∧ y.IsAbove x

section DirectCalls

variable {callKinds scopeKinds : List String}

/--
The search for the direct calls of a body goes below a place exactly if that is the body itself, or
neither a nested scope nor an argument list.
-/
theorem entered_iff {body y : Cursor} (hy : body.Reaches y) :
    (y.address != body.address && (scopeKinds.contains y.kind || y.isArguments callKinds)) = false ↔
      (body.IsAbove y → y.kind ∉ scopeKinds ∧ ¬ y.IsArgumentList callKinds) := by
  -- the body is entered without a question, any other place by its kind
  rcases reaches_iff.mp hy with rfl | habove
  · have : ¬ y.IsAbove y := not_isAbove_self y
    simp [this]
  · obtain ⟨p, -, hmem⟩ := habove.exists_parent
    have hne : (y.address != body.address) = true :=
      bne_iff_ne.mpr fun heq => Nat.lt_irrefl _ (heq ▸ habove.address_lt)
    rw [hne, Bool.true_and, Bool.or_eq_false_iff, ← isArguments_iff hmem]
    simp [habove]

/--
The direct calls of a body are the calls at or below it with neither a nested scope nor an argument
list strictly between.
-/
theorem mem_directCalls {body x : Cursor} :
    x ∈ body.directCalls callKinds scopeKinds ↔
      body.Reaches x ∧ x.kind ∈ callKinds
        ∧ ∀ y, body.IsBetween y x → y.kind ∉ scopeKinds ∧ ¬ y.IsArgumentList callKinds := by
  unfold directCalls
  rw [List.mem_filter, mem_preorder, List.contains_iff_mem, and_right_comm, and_assoc]
  refine and_congr_right fun _ => and_congr_right fun _ => forall_congr' fun y => ?_
  constructor
  · rintro h ⟨hy, hyx⟩
    exact (entered_iff hy.reaches).mp (h hy.reaches hyx) hy
  · intro h hy hyx
    exact (entered_iff hy).mpr fun habove => h ⟨habove, hyx⟩

/-! ### The tree around a body

A body is searched as a tree of its own. What is around it in the file does not matter. -/

/-- A place of the tree at a cursor, seen from the root of the whole tree. -/
def under (b x : Cursor) : Cursor :=
  ⟨x.focus, x.address ++ b.address, x.above ++ b.above⟩

theorem under_root (b : Cursor) : b.under (root b.focus) = b :=
  rfl

theorem children_under (b x : Cursor) : (b.under x).children = x.children.map b.under := by
  refine List.ext_getElem? fun i => ?_
  rw [getElem?_children, List.getElem?_map, getElem?_children, Option.map_map]
  rfl

theorem child?_under (b x : Cursor) (field : String) :
    (b.under x).child? field = (x.child? field).map b.under := by
  unfold child?
  rw [children_under, List.find?_map]
  rfl

theorem preorder_under (prune : Cursor → Bool) (b x : Cursor) :
    (b.under x).preorder prune = (x.preorder fun y => prune (b.under y)).map b.under := by
  -- the places below go to the places below, number by number
  induction x using induct with
  | step x ih =>
    rw [preorder_eq, preorder_eq, List.map_cons, children_under, List.flatMap_map]
    split
    · rfl
    · rw [List.map_flatMap, List.flatMap_congr ih]

theorem isArguments_under (b : Cursor) {p x : Cursor} (hx : x ∈ p.children) :
    (b.under x).isArguments callKinds = x.isArguments callKinds := by
  have hparent : (b.under x).parent? = some (b.under p) :=
    parent?_of_mem_children (children_under b p ▸ List.mem_map_of_mem hx)
  unfold isArguments
  rw [hparent, parent?_of_mem_children hx]
  dsimp only
  rw [child?_under]
  refine congrArg (callKinds.contains p.kind && ·) ?_
  cases p.child? "arguments" with
  | none => rfl
  | some y =>
    -- both addresses are longer by the same end
    show (y.address ++ b.address == x.address ++ b.address) = (y.address == x.address)
    simp

/-- The direct calls of a body in a file are those of the body as a tree of its own. -/
theorem map_focus_directCalls (body : Cursor) :
    (body.directCalls callKinds scopeKinds).map (·.focus) =
      body.focus.directCalls callKinds scopeKinds := by
  -- the search prunes alike inside the file and in the tree of its own
  have hprune : (root body.focus).preorder (fun y => (body.under y).address != body.address
        && (scopeKinds.contains (body.under y).kind || (body.under y).isArguments callKinds)) =
      (root body.focus).preorder fun y => y.address != (root body.focus).address
        && (scopeKinds.contains y.kind || y.isArguments callKinds) := by
    refine preorder_congr fun y hy => ?_
    rcases reaches_iff.mp hy with rfl | habove
    · show (body.address != body.address && _) = (([] : List Nat) != [] && _)
      simp
    -- below the body a place has a parent in either tree
    · obtain ⟨p, -, hmem⟩ := habove.exists_parent
      rw [isArguments_under body hmem]
      refine congrArg (· && _) ?_
      show (y.address ++ body.address != body.address) = (y.address != [])
      exact Bool.eq_iff_iff.mpr (by simp)
  have hlist := preorder_under (fun y => y.address != body.address
    && (scopeKinds.contains y.kind || y.isArguments callKinds)) body (root body.focus)
  rw [under_root, hprune] at hlist
  unfold directCalls Tree.directCalls directCalls
  rw [hlist, List.filter_map, List.map_map]
  rfl

/--
**The direct calls are the unguarded ones.** A walk from any place of a tree, with any condition to
prune, gives out the places at or below it that have no pruned place above them within what the walk
covers: each once, in document order, and nothing else. So the direct calls of a body are the calls
at or below it with neither a nested scope nor the argument list of a call strictly between, in
document order and without repetition; the body itself is always entered, and what is around it in
its tree does not matter.
-/
theorem walk_directCalls (c : Cursor) :
    (∀ prune : Cursor → Bool,
        (∀ n, (Walk.start c).yields prune n = (c.preorder prune).take n)
          ∧ (∀ x, x ∈ c.preorder prune ↔
            c.Reaches x ∧ ∀ y, c.Reaches y → y.IsAbove x → prune y = false)
          ∧ (c.preorder prune).Pairwise Precedes ∧ (c.preorder prune).Nodup)
      ∧ ∀ callKinds scopeKinds : List String,
        (∀ x, x ∈ c.directCalls callKinds scopeKinds ↔
          c.Reaches x ∧ x.kind ∈ callKinds
            ∧ ∀ y, c.IsBetween y x → y.kind ∉ scopeKinds ∧ ¬ y.IsArgumentList callKinds)
          ∧ (c.directCalls callKinds scopeKinds).Pairwise Precedes
          ∧ (c.directCalls callKinds scopeKinds).Nodup
          ∧ (c.directCalls callKinds scopeKinds).map (·.focus) =
            c.focus.directCalls callKinds scopeKinds := by
  refine ⟨fun prune => ⟨Walk.yields_start c, fun x => mem_preorder, preorder_precedes c, ?_⟩,
    fun callKinds scopeKinds => ⟨fun x => mem_directCalls, ?_, ?_, map_focus_directCalls c⟩⟩
  · exact nodup_of_precedes (preorder_precedes c)
  · exact (preorder_precedes c).filter _
  · exact nodup_of_precedes ((preorder_precedes c).filter _)

end DirectCalls

end Cursor

end SourceAtlas
