import SourceAtlas.Json.Basic
import SourceAtlas.Text.Digits

/-!
# Reading records from JSON

A record is read from an object by the names of its fields, or from an array by their order. Members
that are no fields are ignored, but no field is given twice, and an array has no items beyond the
fields.
-/

namespace SourceAtlas.Json

/-- What a record says about a field. -/
inductive Slot where
  | given (v : Json)
  /-- The object does not have it. -/
  | absent
  /-- The array ends before it. -/
  | beyondEnd

/-- Whether an object gives one of these keys more than once. -/
def repeats (names : List String) (members : List (String × Json)) : Bool :=
  names.any fun name => 1 < (members.filter (·.1 == name)).length

/-- The fields of an object. -/
def objectFields? (names : List String) : Json → Option (String → Slot)
  | .obj members =>
    if repeats names members then none
    else some fun name => ((members.lookup name).map Slot.given).getD .absent
  | _ => none

/-- The fields of an object, or of an array in the order of the names. -/
def recordFields? (names : List String) : Json → Option (String → Slot)
  | .arr items =>
    if names.length < items.length then none
    else some fun name => (((names.zip items).lookup name).map Slot.given).getD .beyondEnd
  | v => objectFields? names v

/-! ### Fields -/

/-- A field that has to be there. -/
def Slot.required {α : Type} (read? : Json → Option α) : Slot → Option α
  | .given v => read? v
  | _ => none

/-- A field that may be null, and that an object may leave out. -/
def Slot.optional {α : Type} (read? : Json → Option α) : Slot → Option (Option α)
  | .given .null => some none
  | .given v => (read? v).map some
  | .absent => some none
  | .beyondEnd => none

/-- A field that may be left out, and then has a default. -/
def Slot.orElse {α : Type} (read? : Json → Option α) (default : α) : Slot → Option α
  | .given v => read? v
  | _ => some default

/-! ### Values -/

def bool? : Json → Option Bool
  | .bool b => some b
  | _ => none

/-- A natural number up to a limit. -/
def natUpTo? (limit : Nat) : Json → Option Nat
  | .num (.int i) => if 0 ≤ i ∧ i.toNat ≤ limit then some i.toNat else none
  | _ => none

/-- A count, which 64 bits hold. -/
def count? (v : Json) : Option Nat :=
  natUpTo? Text.maxUnsigned v

/-- The items of an array, each read in the same way. -/
def list? {α : Type} (read? : Json → Option α) : Json → Option (List α)
  | .arr items => items.mapM read?
  | _ => none

def strings? (v : Json) : Option (List String) :=
  list? asString? v

/-- The choice with a name, written as the name or as an object that has the name with null. -/
def choice? {α : Type} (ofName? : String → Option α) : Json → Option α
  | .str name => ofName? name
  | .obj [(name, .null)] => ofName? name
  | _ => none

end SourceAtlas.Json
