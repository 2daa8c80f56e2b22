import SourceAtlas.Extract.Apex.Mask
import SourceAtlas.Text.Buffer

/-!
# Masking Apex text in place

The masking of Apex text as a sequence of edits of one buffer of bytes. Code is not marked cell by
cell: it is a list of spans, found once by a scan of the text as written. Words are read from the
text as written at positions found in the buffer, patterns are searched in the buffer as a text, and
whole ranges are copied over or blanked.

All accesses are those of `Buffer`, so the definitions below say when each of them is out of range,
off the boundary of a character or of the wrong length.

Open brackets and braces are counted in integers without a bound. The count moves by one at most for
each byte that is read, so a counter of 32 bits holds it in every text of fewer than 2^31 bytes; of
longer texts nothing is said here.
-/

namespace SourceAtlas.Extract.Apex.InPlace

open Buffer

/-- A range of bytes, from its first to the one after its last. -/
abbrev Span := Nat × Nat

/-- The first position from `i` on where `stop` holds, or `size`. -/
def seek (size : Nat) (stop : Nat → Edit Bool) (i : Nat) : Edit Nat := do
  let turn (i : Nat) (_ : Unit) : Edit (ForInStep (Nat × Unit)) := do
    if ← stop i then return .done (i, ()) else return .yield (i + 1, ())
  let (i, _) ← loop size turn i ()
  return i

/-! ### Comments, strings and queries -/

def lineEnd (src : List UInt8) (i : Nat) : Edit Nat :=
  seek src.length (fun i => do return (← read src i) == '\n') i

def commentEnd (src : List UInt8) (i : Nat) : Edit Nat :=
  seek src.length (fun i => do return (← read src i) == '*' && peek? src (i + 1) == some '/') i

def stringTurn (src : List UInt8) (i : Nat) (bytes : List UInt8) :
    Edit (ForInStep (Nat × List UInt8)) := do
  let c ← read src i
  if c == '\'' || c == '\n' then return .done (i, bytes)
  else if c == '\\' then return .yield (i + 2, bytes)
  else if c == '"' then
    let bytes ← put bytes i '\''
    return .yield (i + 1, bytes)
  else return .yield (i + 1, bytes)

/-- Masks the string whose opening quote stands before `i`, and goes behind it. -/
def maskString (src : List UInt8) (i : Nat) (bytes : List UInt8) : Edit (Nat × List UInt8) := do
  let (i, bytes) ← loop src.length (stringTurn src) i bytes
  if i < src.length then
    let c ← read src i
    if c == '\'' then
      let bytes ← put bytes i '"'
      return (i + 1, bytes)
    else return (i + 1, bytes)
  else return (i + 1, bytes)

def startsQueryBytes (rest : List UInt8) : Bool :=
  let cs := (rest.map Char.ofUInt8).dropWhile Text.isAsciiWhitespace
  let trimmed := (cs.take 7).map Chars.asciiLower
  let opens (word : List Char) :=
    word.isPrefixOf trimmed && !((trimmed[word.length]?.map isWordByte).getD false)
  opens "select".toList || opens "find".toList

def quoteTurn (src : List UInt8) (i : Nat) (_ : Unit) : Edit (ForInStep (Nat × Unit)) := do
  let c ← read src i
  if c == '\'' then return .done (i, ())
  else if c == '\\' then return .yield (i + 2, ())
  else return .yield (i + 1, ())

/-- The position behind the string that goes on at `i`. -/
def quoteEnd (src : List UInt8) (i : Nat) : Edit Nat := do
  let (i, _) ← loop src.length (quoteTurn src) i ()
  return i + 1

/--
Counts a bracket or passes over a string, until the bracket closes that was opened first. In a text
of fewer than 2^31 bytes the depth stays within 32 bits.
-/
def bracketTurn (src : List UInt8) (i : Nat) (depth : Int) : Edit (ForInStep (Nat × Int)) := do
  let c ← read src i
  if c == '[' then return .yield (i + 1, depth + 1)
  else if c == ']' then
    if depth - 1 = 0 then return .done (i + 1, 0) else return .yield (i + 1, depth - 1)
  else if c == '\'' then
    let i ← quoteEnd src (i + 1)
    return .yield (i, depth)
  else return .yield (i + 1, depth)

/-- The position behind the query that goes on at `i`, with `depth` brackets open. -/
def queryEnd (src : List UInt8) (i : Nat) (depth : Int) : Edit Nat := do
  let (i, _) ← loop src.length (bracketTurn src) i depth
  return i

/-- The position behind the bracket that closes the one at `i`. -/
def matchingBracket (src : List UInt8) (i : Nat) : Edit Nat := do
  let i ← queryEnd src i 0
  return min i src.length

/-- What a scan has found before a position. -/
structure Scan where
  /-- Where the code starts that the scan is in. -/
  start : Nat
  bytes : List UInt8
  spans : List Span

/-- The spans with the code that ends at `i`. -/
def Scan.spansTo (s : Scan) (i : Nat) : List Span :=
  s.spans ++ [(s.start, i)]

def passLine (src : List UInt8) (i : Nat) (s : Scan) : Edit (Nat × Scan) := do
  let stop ← lineEnd src i
  return (stop, ⟨stop, s.bytes, s.spansTo i⟩)

def passComment (src : List UInt8) (i : Nat) (s : Scan) : Edit (Nat × Scan) := do
  let stop ← commentEnd src (i + 2)
  let stop := min (stop + 2) src.length
  return (stop, ⟨stop, s.bytes, s.spansTo i⟩)

def passString (src : List UInt8) (i : Nat) (s : Scan) : Edit (Nat × Scan) := do
  let bytes ← put s.bytes i '"'
  let (stop, bytes) ← maskString src (i + 1) bytes
  return (stop, ⟨min stop src.length, bytes, s.spansTo i⟩)

def passQuery (src : List UInt8) (i : Nat) (s : Scan) : Edit (Nat × Scan) := do
  let stop ← matchingBracket src i
  let bytes ← blank s.bytes i stop
  let bytes ← copyOver bytes i (i + 4) (Utf8.encode "null".toList)
  return (stop, ⟨stop, bytes, s.spansTo i ++ [(i, i + 4)]⟩)

/-- Passes over one character of code, or over all of a comment, a string or a query. -/
def scanStep (src : List UInt8) (i : Nat) (s : Scan) : Edit (Nat × Scan) := do
  let c ← read src i
  if c == '/' && peek? src (i + 1) == some '/' then passLine src i s
  else if c == '/' && peek? src (i + 1) == some '*' then passComment src i s
  else if c == '\'' then passString src i s
  else if c == '[' && startsQueryBytes (← slice src (i + 1) src.length) then passQuery src i s
  else return (i + 1, s)

/-- The spans of code that are left at the end of a scan. -/
def Scan.finish (size : Nat) (s : Scan) : List UInt8 × List Span :=
  (s.bytes, (s.spans ++ [(s.start, size)]).filter fun span => span.1 < span.2)

def scanFrom (src : List UInt8) (i : Nat) (s : Scan) : Edit (List UInt8 × List Span) := do
  let (_, s) ← loop src.length (fun i s => .yield <$> scanStep src i s) i s
  return s.finish src.length

/-- Masks strings and queries, and finds the spans of code. -/
def codeSpans (src : List UInt8) : Edit (List UInt8 × List Span) :=
  scanFrom src 0 ⟨0, src, []⟩

def inSpans (spans : List Span) (i : Nat) : Bool :=
  spans.any fun span => span.1 ≤ i && i < span.2

/-! ### Keywords -/

def followsDot (bytes : List UInt8) (i : Nat) : Edit Bool := do
  let before ← slice bytes 0 i
  return (before.reverse.map Char.ofUInt8).find? (!Text.isAsciiWhitespace ·) == some '.'

/-- Masks the word of a range, which starts with `c`. -/
def editWord (content : List UInt8) (i j : Nat) (c : Char) (bytes : List UInt8) :
    Edit (List UInt8) := do
  let word ← cut content i j
  let lower := String.ofList (word.map Chars.asciiLower)
  if ← followsDot bytes i then
    if keywords.contains lower then
      put bytes i (if 'a' ≤ c && c ≤ 'z' then Char.ofNat (c.toNat - 32) else c)
    else return bytes
  else
    match exchanges.lookup lower with
    | some exchanged => copyOver bytes i j (Utf8.encode exchanged.toList)
    | none =>
      if droppedModifiers.contains lower then blank bytes i j
      else if keywords.contains lower then copyOver bytes i j (Utf8.encode lower.toList)
      else return bytes

/-- Whether the byte before a position is one of a word. -/
def followsWord (bytes : List UInt8) (i : Nat) : Edit Bool :=
  if 0 < i then isWordByte <$> read bytes (i - 1) else .ok false

def wordEnd (bytes : List UInt8) (stop i : Nat) : Edit Nat :=
  seek stop (fun j => do return !isWordByte (← read bytes j)) i

def wordTurn (content : List UInt8) (stop i : Nat) (bytes : List UInt8) :
    Edit (ForInStep (Nat × List UInt8)) := do
  let c ← read bytes i
  let joined ← followsWord bytes i
  if !isWordByte c || joined then return .yield (i + 1, bytes)
  else
    let j ← wordEnd bytes stop i
    let bytes ← editWord content i j c bytes
    return .yield (j, bytes)

/-- Masks the words of a span. -/
def maskSpan (content bytes : List UInt8) (span : Span) : Edit (List UInt8) := do
  let (_, bytes) ← loop span.2 (wordTurn content span.2) span.1 bytes
  return bytes

/-! ### Patterns in the text of the buffer -/

/-- Where a pattern may match: given what comes before, what follows a match. -/
abbrev Pattern := Option Char → List Char → Option (List Char)

/--
The ranges in which a pattern matches, from left to right and none within another; the next `skip`
characters belong to a match, and `offset` bytes come before.
-/
def matchesFrom (pattern : Pattern) (previous : Option Char) (skip offset : Nat) :
    List Char → List Span
  | [] => []
  | c :: cs =>
    if skip = 0 then
      match pattern previous (c :: cs) with
      | some rest =>
        (offset, offset + (Chars.byteLength (c :: cs) - Chars.byteLength rest))
          :: matchesFrom pattern (some c) (cs.length - rest.length) (offset + c.utf8Size) cs
      | none => matchesFrom pattern (some c) 0 (offset + c.utf8Size) cs
    else matchesFrom pattern (some c) (skip - 1) (offset + c.utf8Size) cs

def sharing : Pattern := fun previous cs =>
  if isBoundary previous then afterSharing? cs else none

/-- The first header of a trigger in a text; `offset` bytes come before. -/
def firstHeader? (previous : Option Char) (offset : Nat) : List Char → Option TriggerHeader
  | [] => none
  | c :: cs =>
    match if isBoundary previous then headerAt? (c :: cs) else none with
    | some (name, object, after) =>
      let length := Chars.byteLength (c :: cs) - Chars.byteLength after
      some ⟨String.ofList name, String.ofList object, offset, offset + length⟩
    | none => firstHeader? (some c) (offset + c.utf8Size) cs

/-- Blanks some ranges. -/
def blankAll (bytes : List UInt8) (ranges : List Span) : Edit (List UInt8) :=
  ranges.foldlM (fun bytes range => blank bytes range.1 range.2) bytes

/-! ### Accessors -/

/-- Whether a text opens a block of accessors. -/
def opensBlock : List Char → Bool
  | c :: rest => c == '\x7b' && startsAccessor rest
  | [] => false

/--
Counts a brace, until the one closes that was opened first. In a text of fewer than 2^31 bytes the
depth stays within 32 bits.
-/
def braceTurn (bytes : List UInt8) (i : Nat) (depth : Int) : Edit (ForInStep (Nat × Int)) := do
  let c ← read bytes i
  if c == '\x7b' then return .yield (i + 1, depth + 1)
  else if c == '\x7d' then
    if depth - 1 = 0 then return .done (i + 1, 0) else return .yield (i + 1, depth - 1)
  else return .yield (i + 1, depth)

def accessorTurn (spans : List Span) (i : Nat) (bytes : List UInt8) :
    Edit (ForInStep (Nat × List UInt8)) := do
  let c ← read bytes i
  if c != '\x7b' || !inSpans spans i then return .yield (i + 1, bytes)
  else
    -- the window may end within a character, which then reads as a replacement
    let seen ← slice bytes i (min (i + accessorWindow) bytes.length)
    if opensBlock (Utf8.decode seen) then
      let (stop, _) ← loop bytes.length (braceTurn bytes) i 0
      let bytes ← blank bytes i stop
      let bytes ← put bytes i ';'
      return .yield (stop, bytes)
    else return .yield (i + 1, bytes)

def editAccessors (spans : List Span) (bytes : List UInt8) : Edit (List UInt8) := do
  let (_, bytes) ← loop bytes.length (accessorTurn spans) 0 bytes
  return bytes

/-! ### The whole text -/

/-- The line, counted from one, of a position in the text as written. -/
def lineOf (content : List UInt8) (i : Nat) : Edit Nat := do
  let before ← cut content 0 i
  return before.count '\n' + 1

/-- Masks a text in place; the header of a trigger comes with its line. -/
def maskText (content : List UInt8) : Edit (List Char × Option (TriggerHeader × Nat)) := do
  let (bytes, spans) ← codeSpans content
  let bytes ← spans.foldlM (maskSpan content) bytes
  let masked ← text bytes
  let ranges := (matchesFrom sharing none 0 0 masked).filter fun range => inSpans spans range.1
  let bytes ← blankAll bytes ranges
  let masked ← text bytes
  match (firstHeader? none 0 masked).filter fun h => inSpans spans h.start with
  | some h =>
    let line ← lineOf content h.start
    let bytes ← blank bytes h.start h.stop
    let bytes ← editAccessors spans bytes
    let masked ← text bytes
    return (masked, some (h, line))
  | none =>
    let bytes ← editAccessors spans bytes
    let masked ← text bytes
    return (masked, none)

end SourceAtlas.Extract.Apex.InPlace
