/-!
# Concrete trees of source files

A tree as a grammar yields it: every token is a leaf, keywords and punctuation included. A node
carries its kind, the field it fills in its parent, and the bytes it spans.
-/

namespace SourceAtlas

/-- What a node is, apart from its children. -/
structure Tree.Label where
  kind : String
  /-- Whether the node stands for a rule of the grammar rather than for a token. -/
  named : Bool
  /-- The field that the node fills in its parent. -/
  field : Option String
  /-- The byte where the node starts. -/
  start : Nat
  /-- The byte after the node. -/
  stop : Nat
  deriving DecidableEq, Repr, Inhabited

inductive Tree where
  | node (label : Tree.Label) (children : List Tree)
  deriving Repr

namespace Tree

/-- A node for a rule of the grammar. -/
def rule (kind : String) (field : Option String) (start stop : Nat) (children : List Tree) : Tree :=
  .node { kind, named := true, field, start, stop } children

/-- A node for a token that stands for its own text. -/
def token (kind : String) (start stop : Nat) : Tree :=
  .node { kind, named := false, field := none, start, stop } []

def label : Tree → Label
  | .node l _ => l

def children : Tree → List Tree
  | .node _ cs => cs

def kind (t : Tree) : String := t.label.kind

def named (t : Tree) : Bool := t.label.named

/-! ### Children -/

/-- The first child in a field. -/
def child? (t : Tree) (field : String) : Option Tree :=
  t.children.find? (·.label.field == some field)

/-- All children in a field. -/
def childrenIn (t : Tree) (field : String) : List Tree :=
  t.children.filter (·.label.field == some field)

/-- The children that stand for rules of the grammar. -/
def namedChildren (t : Tree) : List Tree :=
  t.children.filter (·.named)

def childrenOfKind (t : Tree) (kind : String) : List Tree :=
  t.children.filter (·.kind == kind)

/-- The first child of one of some kinds. -/
def childOfKinds? (t : Tree) (kinds : List String) : Option Tree :=
  t.children.find? fun c => kinds.contains c.kind

/-- Whether a keyword is among the children. -/
def hasKeyword (t : Tree) (keyword : String) : Bool :=
  t.children.any (·.kind == keyword)

/-! ### From a preorder list -/

/-- The trees below a list of labels in preorder, each with its number of children. -/
def stack? : List (Label × Nat) → Option (List Tree)
  | [] => some []
  | (l, n) :: rest => do
    let trees ← stack? rest
    if n ≤ trees.length then some (.node l (trees.take n) :: trees.drop n) else none

/-- The tree given by its labels in preorder, each with its number of children. -/
def ofPreorder? (labels : List (Label × Nat)) : Option Tree :=
  match stack? labels with
  | some [t] => some t
  | _ => none

end Tree

end SourceAtlas
