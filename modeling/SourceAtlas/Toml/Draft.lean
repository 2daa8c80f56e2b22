import SourceAtlas.Dict
import SourceAtlas.Toml.Basic

/-!
# Tables under construction

A TOML table may be written in several places: under its own header, under the headers of tables
inside it, and through dotted keys. Which of these may follow which depends on how the table came
about, so a table under construction remembers it.
-/

namespace SourceAtlas.Toml

/-- How a table came about. -/
inductive Origin where
  /-- By its own header, or as the document. -/
  | header
  /-- By the header of a table inside it. -/
  | inner
  /-- By a dotted key. -/
  | dotted
  deriving DecidableEq, Repr

/-- What stands under a key of a table under construction. -/
inductive Draft where
  /-- A finished value, to which nothing can be added. -/
  | value (v : Toml)
  | table (origin : Origin) (entries : List (String × Draft))
  /-- The tables of an array under double brackets, the latest one first. -/
  | tables (items : List (List (String × Draft)))

namespace Draft

mutual

/-- The value that a draft stands for. -/
def finish : Draft → Toml
  | .value v => v
  | .table _ entries => .table (finishEntries entries)
  | .tables items => .arr (finishTables items [])

/-- The entries of a finished table. -/
def finishEntries : List (String × Draft) → List (String × Toml)
  | [] => []
  | (key, d) :: rest => (key, finish d) :: finishEntries rest

/-- The tables of an array in the order in which they were written. -/
def finishTables : List (List (String × Draft)) → List Toml → List Toml
  | [], later => later
  | entries :: rest, later => finishTables rest (.table (finishEntries entries) :: later)

end

/--
Changes the table at a path by `f`, which is told how that table came about. Tables that are missing
on the way are made, with the origin `made`. A path of dotted keys cannot pass a table that has its
own header; no path passes a finished value. An array of tables is passed by its latest table.
-/
def change? (made : Origin)
    (f : Origin → List (String × Draft) → Option (List (String × Draft))) :
    List String → Origin → List (String × Draft) → Option (List (String × Draft))
  | [], origin, entries => f origin entries
  | key :: path, _, entries =>
    match entries.lookup key with
    | none => do
      let inner ← change? made f path made []
      return Dict.insertEntry key (.table made inner) entries
    | some (.value _) => none
    | some (.table origin inner) =>
      if made = .dotted ∧ origin = .header then none
      else do
        let inner ← change? made f path origin inner
        return Dict.insertEntry key (.table origin inner) entries
    | some (.tables []) => none
    | some (.tables (latest :: earlier)) => do
      let latest ← change? made f path .header latest
      return Dict.insertEntry key (.tables (latest :: earlier)) entries

/--
Adds `path.key = v` to a table. Dotted keys only add to tables that dotted keys made, and no key is
given twice.
-/
def addPair? (path : List String) (key : String) (v : Toml) (entries : List (String × Draft)) :
    Option (List (String × Draft)) :=
  change? .dotted
    (fun origin inner =>
      if (!path.isEmpty && origin != .dotted) || (inner.lookup key).isSome then none
      else some (Dict.insertEntry key (.value v) inner))
    path .header entries

/-- Opens the table `[path.key]`. It may exist already, if only by the headers of tables inside. -/
def openTable? (path : List String) (key : String) (entries : List (String × Draft)) :
    Option (List (String × Draft)) :=
  change? .inner
    (fun _ inner =>
      match inner.lookup key with
      | none => some (Dict.insertEntry key (.table .header []) inner)
      | some (.table .inner old) => some (Dict.insertEntry key (.table .header old) inner)
      | some _ => none)
    path .header entries

/-- Opens a new table of the array `[[path.key]]`. -/
def openItem? (path : List String) (key : String) (entries : List (String × Draft)) :
    Option (List (String × Draft)) :=
  change? .inner
    (fun _ inner =>
      match inner.lookup key with
      | none => some (Dict.insertEntry key (.tables [[]]) inner)
      | some (.tables items) => some (Dict.insertEntry key (.tables ([] :: items)) inner)
      | some _ => none)
    path .header entries

end Draft

end SourceAtlas.Toml
