import SourceAtlas.Calendar
import SourceAtlas.Text.Basic
import SourceAtlas.Text.Digits

/-!
# Points in time

A point in time is kept as its day and time of day in universal time, to the nanosecond. It is
written in the form `2024-05-01T12:30:00.250Z` and read from any text that gives day, time and
offset in this order, with blanks between the parts.
-/

namespace SourceAtlas

/-- A point in time by its day and time of day in universal time. -/
structure Instant where
  day : Day
  hour : Nat
  minute : Nat
  /-- The second of the minute; 60 in a leap second. -/
  second : Nat
  nanos : Nat
  deriving DecidableEq, Repr

namespace Instant

/-- The start of 1970. -/
def epoch : Instant :=
  { day := ⟨1970, 1, 1⟩, hour := 0, minute := 0, second := 0, nanos := 0 }

/-- The first year that can be represented. -/
def minYear : Int := -262143

/-- The last year that can be represented. -/
def maxYear : Int := 262142

def isYear (year : Int) : Bool :=
  minYear ≤ year && year ≤ maxYear

/-! ### Reading -/

def skipSpace (cs : List Char) : List Char :=
  cs.dropWhile Text.isWhitespace

/-- Reads a number of one to `width` digits, after blanks. -/
def readNumber (width : Nat) (cs : List Char) : Option (Nat × List Char) :=
  let cs := skipSpace cs
  let digits := (cs.take width).takeWhile Text.isAsciiDigit
  if digits.isEmpty then none else some (Text.natOf 10 digits, cs.drop digits.length)

/-- Reads a year: four digits at most, or any number of them after a sign. -/
def readYear (cs : List Char) : Option (Int × List Char) :=
  let signed (rest : List Char) : Option (Nat × List Char) :=
    let digits := rest.takeWhile Text.isAsciiDigit
    if digits.isEmpty then none else some (Text.natOf 10 digits, rest.drop digits.length)
  match skipSpace cs with
  | '-' :: rest => (signed rest).map fun (n, r) => (-(n : Int), r)
  | '+' :: rest => (signed rest).map fun (n, r) => ((n : Int), r)
  | rest => (readNumber 4 rest).map fun (n, r) => ((n : Int), r)

/-- The text after a mark, with blanks before it. -/
def readMark (mark : Char) (cs : List Char) : Option (List Char) :=
  match skipSpace cs with
  | c :: rest => if c == mark then some rest else none
  | [] => none

/-- The nanoseconds that digits after the point write; those after the ninth do not count. -/
def readFraction (cs : List Char) : Option (Nat × List Char) :=
  match cs with
  | '.' :: rest =>
    let digits := rest.takeWhile Text.isAsciiDigit
    if digits.isEmpty then none
    else
      let kept := digits.take 9
      some (Text.natOf 10 kept * Nat.pow 10 (9 - kept.length), rest.drop digits.length)
  | _ => some (0, cs)

/-- Reads two digits. -/
def readTwo : List Char → Option (Nat × List Char)
  | a :: b :: rest =>
    if Text.isAsciiDigit a && Text.isAsciiDigit b then some (Text.natOf 10 [a, b], rest) else none
  | _ => none

/-- Whether a text starts with the name of universal time, in any case. -/
def startsWithUtc (cs : List Char) : Bool :=
  Chars.eqIgnoreAsciiCase (cs.take 3) ['u', 't', 'c']

/-- Reads the hours and minutes of an offset after its sign. -/
def readOffsetSize (cs : List Char) : Option (Nat × List Char) := do
  let (hours, cs) ← readTwo cs
  let (minutes, cs) ← readTwo (cs.dropWhile fun c => c == ':' || Text.isWhitespace c)
  if minutes < 60 ∧ hours < 24 then return (hours * 60 + minutes, cs) else none

/-- Reads the offset from universal time in minutes. -/
def readOffset (cs : List Char) : Option (Int × List Char) :=
  if startsWithUtc cs then some (0, cs.drop 3)
  else
    match cs with
    | 'Z' :: rest => some (0, rest)
    | 'z' :: rest => some (0, rest)
    | '+' :: rest => (readOffsetSize rest).map fun (n, r) => ((n : Int), r)
    | '-' :: rest => (readOffsetSize rest).map fun (n, r) => (-(n : Int), r)
    | '−' :: rest => (readOffsetSize rest).map fun (n, r) => (-(n : Int), r)
    | _ => none

/-- A time of day, as yet without a day and an offset. -/
structure Clock where
  hour : Nat
  minute : Nat
  second : Nat
  nanos : Nat

/--
The point in time at which clocks with an offset show this day and time. The offset is less than a
day, so the day in universal time is the same or a neighbour.
-/
def ofLocal? (day : Day) (t : Clock) (offset : Int) : Option Instant :=
  let minutes : Int := t.hour * 60 + t.minute - offset
  let day' := if minutes < 0 then day.previous else if 1440 ≤ minutes then day.next else day
  let inDay := (minutes % 1440).toNat
  if day.isValid && isYear day.year && isYear day'.year then
    some
      { day := day'
        hour := inDay / 60
        minute := inDay % 60
        second := t.second
        nanos := t.nanos }
  else none

def readDay (cs : List Char) : Option (Day × List Char) := do
  let (year, cs) ← readYear cs
  let cs ← readMark '-' cs
  let (month, cs) ← readNumber 2 cs
  let cs ← readMark '-' cs
  let (day, cs) ← readNumber 2 cs
  return (⟨year, month, day⟩, cs)

def readClock (cs : List Char) : Option (Clock × List Char) := do
  let (hour, cs) ← readNumber 2 cs
  let cs ← readMark ':' cs
  let (minute, cs) ← readNumber 2 cs
  let cs ← readMark ':' cs
  let (second, cs) ← readNumber 2 cs
  let (nanos, cs) ← readFraction cs
  if hour < 24 ∧ minute < 60 ∧ second ≤ 60 then return (⟨hour, minute, second, nanos⟩, cs) else none

/-- Reads a day, a time of that day and an offset, and nothing but blanks after. -/
def readChars? (cs : List Char) : Option Instant := do
  let (day, cs) ← readDay cs
  match cs with
  | [] => none
  | c :: cs =>
    if c == 'T' || c == 't' || c == ' ' then
      let (clock, cs) ← readClock cs
      let (offset, cs) ← readOffset (skipSpace cs)
      if (skipSpace cs).isEmpty then ofLocal? day clock offset else none
    else none

/-- Reads a text that is a point in time. -/
def read? (text : String) : Option Instant :=
  readChars? text.toList

/-! ### Writing -/

/-- The digits of a number with zeros in front, to at least a width. -/
def padded (width n : Nat) : List Char :=
  let digits := Nat.toDigits 10 n
  List.replicate (width - digits.length) '0' ++ digits

/-- A year in four digits; one that needs more, or lies before year zero, has a sign. -/
def yearChars (year : Int) : List Char :=
  if 0 ≤ year ∧ year ≤ 9999 then padded 4 year.toNat
  else (if year < 0 then '-' else '+') :: padded 4 year.natAbs

/-- A fraction of a second in three, six or nine digits, as many as it needs. -/
def fractionChars (nanos : Nat) : List Char :=
  if nanos == 0 then []
  else if nanos % 1000000 == 0 then '.' :: padded 3 (nanos / 1000000)
  else if nanos % 1000 == 0 then '.' :: padded 6 (nanos / 1000)
  else '.' :: padded 9 nanos

def toChars (t : Instant) : List Char :=
  yearChars t.day.year ++ '-' :: padded 2 t.day.month ++ '-' :: padded 2 t.day.day
    ++ 'T' :: padded 2 t.hour ++ ':' :: padded 2 t.minute ++ ':' :: padded 2 t.second
    ++ fractionChars t.nanos ++ ['Z']

/-- The written form. -/
def toText (t : Instant) : String :=
  String.ofList t.toChars

end Instant

end SourceAtlas
