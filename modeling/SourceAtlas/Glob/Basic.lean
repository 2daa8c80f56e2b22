/-!
# Glob patterns

A pattern for paths, as a sequence of tokens. Patterns work on the bytes of a path: a wildcard
stands for bytes, and so do the members of a class. Only the tokens for any depth pass a slash, and
a class may hold it.
-/

namespace SourceAtlas

/-- One part of a glob pattern. -/
inductive Glob.Token where
  | literal (c : Char)
  /-- `?`, any byte but a slash. -/
  | one
  /-- `*`, any bytes but slashes. -/
  | many
  /-- A leading `**`, any directories or none. -/
  | anyParents
  /-- A final `/**`, anything below. -/
  | anyBelow
  /-- `/**/`, a slash with any directories after it. -/
  | anyBetween
  /-- `[…]`, a byte of some ranges, or of none of them. -/
  | oneOf (negated : Bool) (ranges : List (Char × Char))
  /-- `{…,…}`, one of several patterns. -/
  | choice (alternatives : List (List Glob.Token))
  deriving Repr

/-- A glob pattern. -/
structure Glob where
  tokens : List Glob.Token
  deriving Repr

namespace Glob

abbrev Bytes := List UInt8

def slash : UInt8 := 47

def bytesOf (s : String) : Bytes :=
  s.toUTF8.toList

def charBytes (c : Char) : Bytes :=
  bytesOf (String.singleton c)

/-! ### Classes -/

/--
Whether a byte belongs to a range of characters. The bytes of both ends belong to it as they stand,
and between the last byte of the first end and the first byte of the second one everything does.
-/
def inRange (range : Char × Char) (b : UInt8) : Bool :=
  let low := charBytes range.1
  let high := charBytes range.2
  if range.1 == range.2 then low.contains b
  else
    low.dropLast.contains b || high.tail.contains b
      || match low.getLast?, high.head? with
        | some first, some last => first ≤ b && b ≤ last
        | _, _ => false

def inClass (negated : Bool) (ranges : List (Char × Char)) (b : UInt8) : Bool :=
  ranges.any (inRange · b) != negated

/-! ### Matching -/

/-- What may be left of a text after bytes satisfying `p`. -/
def afterRun (p : UInt8 → Bool) : Bytes → List Bytes
  | [] => [[]]
  | b :: bs => (b :: bs) :: if p b then afterRun p bs else []

/-- What may be left of a text after any bytes that end in a slash. -/
def afterSlashes : Bytes → List Bytes
  | [] => []
  | b :: bs => if b == slash then bs :: afterSlashes bs else afterSlashes bs

mutual

/-- Whether a token stands for nothing at all: a choice without a proper alternative. -/
def Token.isVoid : Token → Bool
  | .choice alternatives => allVoid alternatives
  | _ => false

/-- Whether a pattern has no token that stands for something. -/
def isVoid : List Token → Bool
  | [] => true
  | t :: ts => t.isVoid && isVoid ts

/-- Whether none of some patterns has a token that stands for something. -/
def allVoid : List (List Token) → Bool
  | [] => true
  | ts :: rest => isVoid ts && allVoid rest

end

mutual

/-- What may be left of a text after a token. -/
def Token.after : Token → Bytes → List Bytes
  | .literal c, bs => ((charBytes c).isPrefixOf? bs).toList
  | .one, b :: bs => if b == slash then [] else [bs]
  | .one, [] => []
  | .many, bs => afterRun (· != slash) bs
  | .anyParents, bs => bs :: afterSlashes bs
  | .anyBelow, b :: bs => if b == slash then afterRun (fun _ => true) bs else []
  | .anyBelow, [] => []
  | .anyBetween, b :: bs => if b == slash then bs :: afterSlashes bs else []
  | .anyBetween, [] => []
  | .oneOf negated ranges, b :: bs => if inClass negated ranges b then [bs] else []
  | .oneOf _ _, [] => []
  | .choice alternatives, bs => if allVoid alternatives then [bs] else afterAny alternatives bs

/-- What may be left of each of some texts after a sequence of tokens. -/
def afterAll : List Token → List Bytes → List Bytes
  | [], rests => rests
  | t :: ts, rests => afterAll ts (rests.flatMap t.after).eraseDups

/-- What may be left of a text after one of some patterns; one that stands for nothing is none. -/
def afterAny : List (List Token) → Bytes → List Bytes
  | [], _ => []
  | ts :: rest, bs => (if isVoid ts then [] else afterAll ts [bs]) ++ afterAny rest bs

end

/-- The literal characters of tokens that are nothing else. -/
def literals? (tokens : List Token) : Option (List Char) :=
  tokens.mapM fun t =>
    match t with
    | .literal c => some c
    | _ => none

/--
Whether a pattern is looked up by the base name or its extension. These do not exist for a path that
ends in a dot. A pattern that ends in a dot is looked up so, unless it spells out the path or a
final part of it with a slash.
-/
def needsBaseName (tokens : List Token) : Bool :=
  let endsInDot :=
    match tokens.getLast? with
    | some (.literal c) => c == '.'
    | _ => false
  let spelledOut :=
    match tokens with
    | .anyParents :: rest => (literals? rest).any (·.contains '/')
    | ts => (literals? ts).isSome
  endsInDot && !spelledOut

/-- Whether a pattern matches a whole path. A lone `**` matches every path. -/
def isMatch (g : Glob) (path : String) : Bool :=
  match g.tokens with
  | [.anyParents] => true
  | tokens =>
    !(needsBaseName tokens && path.toList.getLast? == some '.')
      && (afterAll tokens [bytesOf path]).any (·.isEmpty)

end Glob

end SourceAtlas
