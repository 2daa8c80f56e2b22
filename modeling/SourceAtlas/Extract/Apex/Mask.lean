import SourceAtlas.Text.Basic

/-!
# Apex text in the form of Java

Apex is near enough to Java that its text can be brought into a form the Java grammar reads. Every
byte keeps its place, so positions in the masked text are positions in the text as written.

The text is a list of cells, each a character with a mark that tells plain code from comments,
literals and queries. The steps, in order:

* strings get double quotes, and inline queries become `null`;
* keywords are put in small letters, and modifiers of Apex alone are exchanged or blanked;
* `with sharing` and its like are blanked;
* the header of a trigger is taken out;
* blocks of property accessors become a semicolon.
-/

namespace SourceAtlas.Extract.Apex

/-- A character of the text, and whether it is plain code. -/
structure Cell where
  char : Char
  code : Bool
  deriving DecidableEq, Repr

/-- The cells without their marks. -/
def cellChars (cells : List Cell) : List Char :=
  cells.map (·.char)

/-- Blanks a character, leaving line breaks. There is one blank for each byte of the character. -/
def blankChar (c : Char) : List Char :=
  if c == '\n' || c == '\r' then [c] else List.replicate c.utf8Size ' '

def Cell.blank (cell : Cell) : List Cell :=
  (blankChar cell.char).map (⟨·, cell.code⟩)

/-! ### Code, comments, strings and queries -/

def plain (c : Char) : Cell := ⟨c, true⟩

def other (c : Char) : Cell := ⟨c, false⟩

def isWordByte (c : Char) : Bool :=
  Text.isAsciiLetter c || Text.isAsciiDigit c || c == '_'

/-- Whether a query starts after an opening bracket. -/
def startsQuery (rest : List Char) : Bool :=
  let cs := (rest.dropWhile Text.isAsciiWhitespace).map Chars.asciiLower
  let opens (word : String) :=
    match Chars.stripPrefix? word.toList cs with
    | some after => !((after.head?.map isWordByte).getD false)
    | none => false
  opens "select" || opens "find"

/-- What stands in place of a character of a query: the rest of the stand-in, then blanks. -/
def standIn : List Char → Char → List Cell
  | s :: _, _ => [other s]
  | [], c => (other c).blank

mutual

/-- Plain code. -/
def codeCells : List Char → List Cell
  | [] => []
  | '/' :: '/' :: rest => other '/' :: other '/' :: lineCommentCells rest
  | '/' :: '*' :: rest => other '/' :: other '*' :: blockCommentCells rest
  | '\'' :: rest => other '"' :: stringCells rest
  | c :: rest =>
    if c == '[' && startsQuery rest then other 'n' :: queryCells ['u', 'l', 'l'] 1 rest
    else plain c :: codeCells rest

/-- A comment up to the end of the line, which is code again. -/
def lineCommentCells : List Char → List Cell
  | [] => []
  | '\n' :: rest => plain '\n' :: codeCells rest
  | c :: rest => other c :: lineCommentCells rest

/-- A comment up to its closing mark. -/
def blockCommentCells : List Char → List Cell
  | [] => []
  | '*' :: '/' :: rest => other '*' :: other '/' :: codeCells rest
  | c :: rest => other c :: blockCommentCells rest

/-- A string up to its closing quote or the end of the line; both kinds of quotes change places. -/
def stringCells : List Char → List Cell
  | [] => []
  | '\'' :: rest => other '"' :: codeCells rest
  | '\n' :: rest => other '\n' :: codeCells rest
  | '\\' :: c :: rest => other '\\' :: other c :: stringCells rest
  | '"' :: rest => other '\'' :: stringCells rest
  | c :: rest => other c :: stringCells rest

/-- A query up to the bracket that closes it, with what is left of its stand-in. -/
def queryCells (stand : List Char) (depth : Nat) : List Char → List Cell
  | [] => []
  | '[' :: rest => standIn stand '[' ++ queryCells stand.tail (depth + 1) rest
  | ']' :: rest =>
    standIn stand ']'
      ++ if depth ≤ 1 then codeCells rest else queryCells stand.tail (depth - 1) rest
  | '\'' :: rest => standIn stand '\'' ++ queryStringCells stand.tail depth rest
  | c :: rest => standIn stand c ++ queryCells stand.tail depth rest

/-- A string in a query. -/
def queryStringCells (stand : List Char) (depth : Nat) : List Char → List Cell
  | [] => []
  | '\'' :: rest => standIn stand '\'' ++ queryCells stand.tail depth rest
  | '\\' :: c :: rest =>
    standIn stand '\\' ++ standIn stand.tail c ++ queryStringCells stand.tail.tail depth rest
  | c :: rest => standIn stand c ++ queryStringCells stand.tail depth rest

end

/-! ### Keywords -/

/-- Keywords that Java writes in small letters. -/
def keywords : List String :=
  ["abstract", "break", "catch", "class", "continue", "do", "else", "enum", "extends", "false",
   "final", "finally", "for", "if", "implements", "instanceof", "interface", "new", "null",
   "private", "protected", "public", "return", "static", "super", "this", "throw", "transient",
   "true", "try", "void", "while"]

/-- Modifiers of Apex alone, with modifiers of Java of the same length. -/
def exchanges : List (String × String) :=
  [("global", "public"), ("virtual", "default"), ("override", "strictfp")]

/-- Modifiers of Apex alone that Java has nothing for. -/
def droppedModifiers : List String :=
  ["testmethod", "webservice"]

/--
The form of a word in the masked text. After a dot a word is a member, so a keyword there gets a
capital and is none.
-/
def maskWord (afterDot : Bool) (word : List Char) : List Char :=
  let lower := String.ofList (word.map Chars.asciiLower)
  if afterDot then
    if keywords.contains lower then
      match word with
      | c :: rest => (if 'a' ≤ c && c ≤ 'z' then Char.ofNat (c.toNat - 32) else c) :: rest
      | [] => []
    else word
  else
    match exchanges.lookup lower with
    | some exchanged => exchanged.toList
    | none =>
      if droppedModifiers.contains lower then word.map fun _ => ' '
      else if keywords.contains lower then lower.toList
      else word

def Cell.inWord (cell : Cell) : Bool :=
  cell.code && isWordByte cell.char

/-- Masks a run of cells, given the cells before it, the nearest first. -/
def maskRun (before run : List Cell) : List Cell :=
  let isWord := ((run.head?).map Cell.inWord).getD false
  let joined := (before.head?.map (isWordByte ·.char)).getD false
  if isWord && !joined then
    let previous := before.find? (!Text.isAsciiWhitespace ·.char)
    (maskWord ((previous.map (·.char == '.')).getD false) (cellChars run)).map plain
  else run

/-- Masks the words of plain code. -/
def maskKeywords (cells : List Cell) : List Cell :=
  ((cells.splitBy fun a b => a.inWord == b.inWord).foldl
    (fun before run => (maskRun before run).reverse ++ before) []).reverse

/-! ### Words in any case -/

/-- Whether a small letter stands for a character, whatever its case. -/
def matchesLetter (letter c : Char) : Bool :=
  Chars.asciiLower c == letter
    || (letter == 's' && c.toNat == 0x17F) || (letter == 'k' && c.toNat == 0x212A)

/-- What follows a word written in any case. -/
def afterWord? : List Char → List Char → Option (List Char)
  | [], cs => some cs
  | _ :: _, [] => none
  | l :: ls, c :: cs => if matchesLetter l c then afterWord? ls cs else none

/-- What follows one of some words written in any case. -/
def afterAnyWord? (words : List String) (cs : List Char) : Option (List Char) :=
  words.findSome? fun word => afterWord? word.toList cs

/-- What follows one or more blanks. -/
def afterBlanks? : List Char → Option (List Char)
  | c :: cs => if Text.isWhitespace c then some (cs.dropWhile Text.isWhitespace) else none
  | [] => none

/-- Whether a word can start after a character, or end before it. -/
def isBoundary (next : Option Char) : Bool :=
  !((next.map Text.isWordChar).getD false)

/-! ### Sharing modifiers -/

/-- What follows a sharing modifier such as `without sharing`. -/
def afterSharing? (cs : List Char) : Option (List Char) :=
  ["with", "without", "inherited"].findSome? fun word => do
    let rest ← afterWord? word.toList cs
    let rest ← afterBlanks? rest
    let rest ← afterWord? "sharing".toList rest
    if isBoundary rest.head? then some rest else none

/-- Blanks sharing modifiers, `left` more cells of one first; `previous` is the character before. -/
def blankSharing (previous : Option Char) (left : Nat) : List Cell → List Cell
  | [] => []
  | cell :: rest =>
    let left :=
      if left == 0 && cell.code && isBoundary previous then
        match afterSharing? (cellChars (cell :: rest)) with
        | some after => rest.length + 1 - after.length
        | none => 0
      else left
    if left == 0 then cell :: blankSharing (some cell.char) 0 rest
    else cell.blank ++ blankSharing (some cell.char) (left - 1) rest

/-! ### Triggers -/

/-- The header `trigger Name on Object (events)`. -/
structure TriggerHeader where
  name : String
  object : String
  /-- The byte where the header starts. -/
  start : Nat
  /-- The byte after the header. -/
  stop : Nat
  deriving DecidableEq, Repr

/-- A name, and what follows it. -/
def word? (cs : List Char) : Option (List Char × List Char) :=
  let word := cs.takeWhile Text.isWordChar
  if word.isEmpty then none else some (word, cs.dropWhile Text.isWordChar)

/-- The name and the object of a header, and what follows it. -/
def headerAt? (cs : List Char) : Option (List Char × List Char × List Char) := do
  let rest ← afterWord? "trigger".toList cs
  let (name, rest) ← word? (← afterBlanks? rest)
  let rest ← afterWord? "on".toList (← afterBlanks? rest)
  let (object, rest) ← word? (← afterBlanks? rest)
  match rest.dropWhile Text.isWhitespace with
  | '(' :: rest =>
    match rest.dropWhile (· != ')') with
    | ')' :: rest => some (name, object, rest)
    | _ => none
  | _ => none

/-- The first header in the text and whether it starts in code; `offset` bytes come before. -/
def findHeader? (previous : Option Char) (offset : Nat) :
    List Cell → Option (TriggerHeader × Bool)
  | [] => none
  | cell :: rest =>
    let here :=
      if isBoundary previous then headerAt? (cellChars (cell :: rest)) else none
    match here with
    | some (name, object, after) =>
      let length := Chars.byteLength (cellChars (cell :: rest)) - Chars.byteLength after
      some (⟨String.ofList name, String.ofList object, offset, offset + length⟩, cell.code)
    | none => findHeader? (some cell.char) (offset + cell.char.utf8Size) rest

/-- The header of the text: the first one, if it starts in code. -/
def triggerHeader? (cells : List Cell) : Option TriggerHeader :=
  match findHeader? none 0 cells with
  | some (header, true) => some header
  | _ => none

/-- Blanks the bytes of a range; `offset` bytes come before. -/
def blankRange (start stop offset : Nat) : List Cell → List Cell
  | [] => []
  | cell :: rest =>
    let next := offset + cell.char.utf8Size
    (if start ≤ offset && offset < stop then cell.blank else [cell])
      ++ blankRange start stop next rest

/-! ### Accessors -/

/-- The longest part from the start that takes at most `n` bytes. -/
def window (n : Nat) : List Char → List Char
  | [] => []
  | c :: cs => if c.utf8Size ≤ n then c :: window (n - c.utf8Size) cs else []

/-- The number of bytes from the brace on in which an accessor is looked for. -/
def accessorWindow : Nat := 64

/-- Whether what follows an opening brace starts an accessor. -/
def startsAccessor (cs : List Char) : Bool :=
  let accessor (cs : List Char) : Bool :=
    match afterAnyWord? ["get", "set"] cs with
    | some rest =>
      match rest.dropWhile Text.isWhitespace with
      | c :: _ => c == ';' || c == '\x7b'
      | [] => false
    | none => false
  let cs := cs.dropWhile Text.isWhitespace
  let afterModifier :=
    (afterAnyWord? ["public", "private", "protected", "global"] cs).bind afterBlanks?
  (afterModifier.map accessor).getD false || accessor cs

/-- Whether the text opens a block of accessors. -/
def opensAccessors (cs : List Char) : Bool :=
  match window accessorWindow cs with
  | c :: rest => c == '\x7b' && startsAccessor rest
  | [] => false

/-- Turns blocks of accessors into a semicolon and blanks; `depth` counts the braces left open. -/
def maskAccessors (depth : Nat) : List Cell → List Cell
  | [] => []
  | cell :: rest =>
    if depth == 0 then
      if cell.char == '\x7b' && cell.code && opensAccessors (cellChars (cell :: rest)) then
        ⟨';', cell.code⟩ :: maskAccessors 1 rest
      else cell :: maskAccessors 0 rest
    else
      let depth :=
        if cell.char == '\x7b' then depth + 1 else if cell.char == '\x7d' then depth - 1 else depth
      cell.blank ++ maskAccessors depth rest

/-! ### The whole text -/

/-- The cells after keywords and sharing modifiers are masked. -/
def maskedWords (cs : List Char) : List Cell :=
  blankSharing none 0 (maskKeywords (codeCells cs))

/-- Masks words, then the header of a trigger, and accessors last; gives the header as well. -/
def maskChars (cs : List Char) : List Char × Option TriggerHeader :=
  let cells := maskedWords cs
  let header := triggerHeader? cells
  let cells := header.elim cells fun h => blankRange h.start h.stop 0 cells
  (cellChars (maskAccessors 0 cells), header)

/-- The masked text, and the header of a trigger if there is one. -/
def mask (text : String) : String × Option TriggerHeader :=
  let (cs, header) := maskChars text.toList
  (String.ofList cs, header)

end SourceAtlas.Extract.Apex
