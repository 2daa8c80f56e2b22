import SourceAtlas.Tree.Basic

/-!
# Places in a tree

A cursor is a node of a tree together with the way to it from the root. Two nodes that look alike
are told apart by their addresses.
-/

namespace SourceAtlas

/-- A node in its tree. -/
structure Cursor where
  focus : Tree
  /-- The child numbers on the way from the root, the last first. -/
  address : List Nat
  /-- The nodes above, the parent first. -/
  above : List Tree

namespace Cursor

def root (t : Tree) : Cursor :=
  ⟨t, [], []⟩

def kind (c : Cursor) : String := c.focus.kind

def parent? (c : Cursor) : Option Cursor :=
  match c.above, c.address with
  | t :: ts, _ :: is => some ⟨t, is, ts⟩
  | _, _ => none

/-- The cursors on the way up, with nodes `above` and address `address`. -/
def ancestorsOf : List Tree → List Nat → List Cursor
  | t :: ts, _ :: is => ⟨t, is, ts⟩ :: ancestorsOf ts is
  | _, _ => []

/-- The nodes above, the parent first. -/
def ancestors (c : Cursor) : List Cursor :=
  ancestorsOf c.above c.address

/-- The children in order. -/
def children (c : Cursor) : List Cursor :=
  c.focus.children.mapIdx fun i t => ⟨t, i :: c.address, c.focus :: c.above⟩

/-- The first child in a field. -/
def child? (c : Cursor) (field : String) : Option Cursor :=
  c.children.find? (·.focus.label.field == some field)

/-! ### Preorder -/

mutual

/-- The places in a tree in document order, not below a node for which `prune` holds. -/
def walkTree (prune : Cursor → Bool) : Tree → List Nat → List Tree → List Cursor
  | .node l cs, address, above =>
    let here : Cursor := ⟨.node l cs, address, above⟩
    here :: if prune here then [] else walkForest prune cs 0 address (.node l cs :: above)

/-- The same for the trees of a list, which are children from number `i` on. -/
def walkForest (prune : Cursor → Bool) : List Tree → Nat → List Nat → List Tree → List Cursor
  | [], _, _, _ => []
  | t :: ts, i, address, above =>
    walkTree prune t (i :: address) above ++ walkForest prune ts (i + 1) address above

end

/-- The places at and below a cursor in document order, not below one for which `prune` holds. -/
def preorder (prune : Cursor → Bool) (c : Cursor) : List Cursor :=
  walkTree prune c.focus c.address c.above

/-- All places at and below a cursor in document order. -/
def descendants (c : Cursor) : List Cursor :=
  c.preorder fun _ => false

/-! ### Direct calls -/

/-- Whether a place is the argument list of the call it belongs to. -/
def isArguments (callKinds : List String) (c : Cursor) : Bool :=
  match c.parent? with
  | none => false
  | some p =>
    callKinds.contains p.kind
      && ((p.child? "arguments").map (·.address == c.address)).getD false

/--
The calls made directly in a body: those in arguments of other calls and in nested scopes (closures,
local functions, anonymous classes) are left out. The body itself is always entered.
-/
def directCalls (body : Cursor) (callKinds scopeKinds : List String) : List Cursor :=
  (body.preorder fun c =>
      c.address != body.address && (scopeKinds.contains c.kind || c.isArguments callKinds)).filter
    fun c => callKinds.contains c.kind

end Cursor

namespace Tree

/-- The nodes of a tree in document order, not below a node of one of some kinds. -/
def nodesOutside (t : Tree) (kinds : List String) : List Tree :=
  ((Cursor.root t).preorder fun c => kinds.contains c.kind).map (·.focus)

/-- All nodes of a tree in document order. -/
def nodes (t : Tree) : List Tree :=
  (Cursor.root t).descendants.map (·.focus)

/-- The first node of a kind in document order. -/
def findKind? (t : Tree) (kind : String) : Option Tree :=
  t.nodes.find? (·.kind == kind)

/-- The calls made directly in a body. -/
def directCalls (body : Tree) (callKinds scopeKinds : List String) : List Tree :=
  ((Cursor.root body).directCalls callKinds scopeKinds).map (·.focus)

end Tree

end SourceAtlas
