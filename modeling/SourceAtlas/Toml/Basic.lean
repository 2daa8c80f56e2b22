/-!
# TOML values

A document is a table. Tables list their keys in increasing order, whatever order they were written
in. Of dates, times and floating point numbers only the presence is kept.
-/

namespace SourceAtlas

inductive Toml where
  | str (s : String)
  | int (i : Int)
  | real
  | bool (b : Bool)
  | moment
  | arr (items : List Toml)
  | table (entries : List (String × Toml))
  deriving Repr, Inhabited

namespace Toml

/-- The value under `key`, if the value is a table that has it. -/
def get? (key : String) : Toml → Option Toml
  | .table entries => entries.lookup key
  | _ => none

def asString? : Toml → Option String
  | .str s => some s
  | _ => none

def asArray? : Toml → Option (List Toml)
  | .arr items => some items
  | _ => none

def asTable? : Toml → Option (List (String × Toml))
  | .table entries => some entries
  | _ => none

end Toml

end SourceAtlas
