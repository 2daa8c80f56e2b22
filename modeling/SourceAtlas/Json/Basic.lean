import SourceAtlas.Decimal.Binary64
import SourceAtlas.Dict

/-!
# JSON values

An object is kept as it was written: its members in order, repeated keys included. A value that is
passed on as it is, without being read into a record, is first brought to its canonical form, where
every object lists each key once, the last value given for it, in increasing order.
-/

namespace SourceAtlas

/-- A number: an integer of 64 bits, with or without sign, or a binary floating point number. -/
inductive Json.Number where
  | int (i : Int)
  | real (x : Binary64)
  deriving DecidableEq, Repr

inductive Json where
  | null
  | bool (b : Bool)
  | num (n : Json.Number)
  | str (s : String)
  | arr (items : List Json)
  | obj (members : List (String × Json))
  deriving Repr, Inhabited

namespace Json

mutual

/-- The value with all objects in canonical form. -/
def canonical : Json → Json
  | .arr items => .arr (canonicalItems items)
  | .obj members => .obj (canonicalMembers members [])
  | v => v

/-- The items of an array in canonical form. -/
def canonicalItems : List Json → List Json
  | [] => []
  | v :: rest => canonical v :: canonicalItems rest

/-- Adds the members one by one to those seen before, a later value replacing an earlier one. -/
def canonicalMembers : List (String × Json) → List (String × Json) → List (String × Json)
  | [], seen => seen
  | (key, v) :: rest, seen => canonicalMembers rest (Dict.insertEntry key (canonical v) seen)

end

/-- The last value given for `key` in an object. -/
def member? (key : String) : Json → Option Json
  | .obj members => members.reverse.lookup key
  | _ => none

def asString? : Json → Option String
  | .str s => some s
  | _ => none

def asArray? : Json → Option (List Json)
  | .arr items => some items
  | _ => none

/-- A natural number. -/
def ofNat (n : Nat) : Json :=
  .num (.int n)

/-- A text, or null. -/
def ofOption : Option String → Json
  | some s => .str s
  | none => .null

/-- An array of texts. -/
def ofStrings (items : List String) : Json :=
  .arr (items.map .str)

end Json

end SourceAtlas
