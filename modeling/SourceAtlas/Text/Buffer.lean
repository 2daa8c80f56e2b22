import SourceAtlas.Text.Utf8

/-!
# Editing a text in place

A buffer is the list of the bytes of a text, and positions in it are counted in bytes. Every access
is checked: what would read or write past the end, copy bytes over a range of another length, cut a
text within a character or read as text what is none is a `Fault`, and so is a loop whose turn does
not move on.
-/

namespace SourceAtlas

/-- What stops an edit. -/
inductive Fault where
  /-- A byte past the end is read or written. -/
  | outOfRange
  /-- Bytes are copied over a range of another length. -/
  | lengthMismatch
  /-- A text is cut within a character. -/
  | offBoundary
  /-- Bytes are read as a text and are none. -/
  | notUtf8
  /-- A turn of a loop does not move on. -/
  | stalled
  deriving DecidableEq, Repr

/-- An edit, which comes out or stops. -/
abbrev Edit := Except Fault

namespace Buffer

open Utf8

/-! ### Accesses -/

/-- The byte at a position, as the character of its number. -/
def read (bs : List UInt8) (i : Nat) : Edit Char :=
  match bs[i]? with
  | some b => .ok (Char.ofUInt8 b)
  | none => .error .outOfRange

/-- The byte at a position, if there is one. -/
def peek? (bs : List UInt8) (i : Nat) : Option Char :=
  bs[i]?.map Char.ofUInt8

/-- Writes a character of ASCII at a position. -/
def put (bs : List UInt8) (i : Nat) (c : Char) : Edit (List UInt8) :=
  if i < bs.length then .ok (bs.set i c.toUInt8) else .error .outOfRange

/-- The bytes of a range. -/
def slice (bs : List UInt8) (start stop : Nat) : Edit (List UInt8) :=
  if start ≤ stop && stop ≤ bs.length then .ok ((bs.take stop).drop start)
  else .error .outOfRange

/-- Copies bytes over a range of the same length. -/
def copyOver (bs : List UInt8) (start stop : Nat) (new : List UInt8) : Edit (List UInt8) := do
  let old ← slice bs start stop
  if new.length = old.length then return bs.take start ++ new ++ bs.drop stop
  else throw .lengthMismatch

/-- A byte overwritten with a space, unless it is a line break. -/
def blankByte (b : UInt8) : UInt8 :=
  if b = '\n'.toUInt8 || b = '\r'.toUInt8 then b else ' '.toUInt8

/-- Blanks a range, up to the end at most. -/
def blank (bs : List UInt8) (start stop : Nat) : Edit (List UInt8) := do
  let stop := min stop bs.length
  let old ← slice bs start stop
  return bs.take start ++ old.map blankByte ++ bs.drop stop

/-- Whether a text can be cut at a position. -/
def onBoundary (bs : List UInt8) (i : Nat) : Bool :=
  i == bs.length || (bs[i]?.map fun b => decide b.IsUTF8FirstByte).getD false

/-- The text of a range. -/
def cut (bs : List UInt8) (start stop : Nat) : Edit (List Char) := do
  let part ← slice bs start stop
  if onBoundary bs start && onBoundary bs stop then return decode part else throw .offBoundary

/-- The whole buffer as a text, which has to be the text of just these bytes. -/
def text (bs : List UInt8) : Edit (List Char) :=
  if encode (decode bs) = bs then .ok (decode bs) else .error .notUtf8

/-! ### Loops -/

/--
Takes turns at the positions below `size`, each with a state beside the position. A turn ends the
loop or goes on further behind.
-/
def loop {τ : Type} (size : Nat) (turn : Nat → τ → Edit (ForInStep (Nat × τ))) (i : Nat) (t : τ) :
    Edit (Nat × τ) :=
  if i < size then
    match turn i t with
    | .error fault => .error fault
    | .ok (.done r) => .ok r
    | .ok (.yield (j, t)) => if i < j then loop size turn j t else .error .stalled
  else .ok (i, t)
termination_by size - i

end Buffer

end SourceAtlas
