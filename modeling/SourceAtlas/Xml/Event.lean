import SourceAtlas.Text.Basic

/-!
# XML as a sequence of events

Tags and pieces of text in the order in which they stand. Text is given without blanks around it and
is divided by references; comments, instructions, character data sections and the document type are
passed over. The sequence ends where the text is not well formed, but elements that are still open
at the end are no fault.
-/

namespace SourceAtlas.Xml

inductive Event where
  | start (name : String) (attributes : List (String × String))
  /-- An element that is closed in its own tag. -/
  | empty (name : String) (attributes : List (String × String))
  | finish (name : String)
  | text (content : String)
  deriving DecidableEq, Repr

/-- The name without the part up to its first colon. -/
def localName (name : String) : String :=
  ((Text.splitFirst? name ":").map Prod.snd).getD name

/-- A blank of the markup. -/
def isBlank (c : Char) : Bool :=
  c == ' ' || c == '\r' || c == '\n' || c == '\t'

/-! ### Attributes -/

/-- What stands in a tag after its name. -/
inductive AttributeStep where
  /-- An attribute with its value as written, and the text after it. -/
  | attribute (key value rest : List Char)
  /-- Something that is no attribute, and the text after it. -/
  | skip (rest : List Char)
  | finished

/-- The text from the first blank on, if there is one. -/
def fromBlank (cs : List Char) : AttributeStep :=
  match cs.dropWhile (!isBlank ·) with
  | [] => .finished
  | rest => .skip rest

/--
The next attribute. A key without a value, a value without quotes and a key that was `seen` before
are skipped; a value that does not end is the last thing that is looked at.
-/
def nextAttribute (seen : List (List Char)) (cs : List Char) : AttributeStep :=
  let cs := cs.dropWhile isBlank
  match cs with
  | [] => .finished
  | first :: more =>
    -- an equals sign in front is part of the key
    let key := first :: more.takeWhile fun c => c != '=' && !isBlank c
    match (more.dropWhile fun c => c != '=' && !isBlank c).dropWhile isBlank with
    | '=' :: afterEquals =>
      if seen.contains key then fromBlank ('=' :: afterEquals)
      else
        match afterEquals.dropWhile isBlank with
        | [] => .finished
        | c :: rest =>
          if c == '"' || c == '\'' then
            match rest.dropWhile (· != c) with
            | _ :: after => .attribute key (rest.takeWhile (· != c)) after
            | [] => .finished
          else fromBlank (c :: rest)
    | [] => .finished
    | rest => .skip rest

/-- The attributes in the text of a tag after its name, without blanks around their values. -/
def attributesFrom : Nat → List (List Char) → List Char → List (String × String)
  | 0, _, _ => []
  | fuel + 1, seen, cs =>
    match nextAttribute seen cs with
    | .attribute key value rest =>
      (String.ofList key, Text.trim (String.ofList value))
        :: attributesFrom fuel (key :: seen) rest
    | .skip rest => attributesFrom fuel seen rest
    | .finished => []

/-- The value of the first attribute with a local name. -/
def attribute? (key : String) (attributes : List (String × String)) : Option String :=
  (attributes.find? fun (k, _) => localName k == key).map Prod.snd

/-! ### Markup -/

/-- The text of a tag up to the first `>` outside quotes, and what follows it. -/
def splitTag (quote : Option Char) : List Char → Option (List Char × List Char)
  | [] => none
  | c :: cs =>
    match quote with
    | some q => (splitTag (if c == q then none else some q) cs).map fun (a, b) => (c :: a, b)
    | none =>
      if c == '>' then some ([], cs)
      else
        let quote := if c == '"' || c == '\'' then some c else none
        (splitTag quote cs).map fun (a, b) => (c :: a, b)

/-- Where a document type declaration stands. -/
inductive DoctypeZone where
  /-- Before the internal declarations, maybe in quotes. -/
  | outside (quote : Option Char)
  /-- Between the internal declarations. -/
  | inside
  | comment
  | instruction
  | declaration (quote : Option Char)
  /-- After the internal declarations. -/
  | closing

/-- The text after a document type declaration. -/
def skipDoctype : DoctypeZone → List Char → Option (List Char)
  | .outside none, '>' :: rest => some rest
  | .outside none, '[' :: rest => skipDoctype .inside rest
  | .outside none, c :: rest =>
    skipDoctype (.outside (if c == '"' || c == '\'' then some c else none)) rest
  | .outside (some q), c :: rest => skipDoctype (.outside (if c == q then none else some q)) rest
  | .inside, ']' :: rest => skipDoctype .closing rest
  | .inside, '<' :: '!' :: '-' :: '-' :: rest => skipDoctype .comment rest
  | .inside, '<' :: '?' :: rest => skipDoctype .instruction rest
  | .inside, '<' :: rest => skipDoctype (.declaration none) rest
  | .inside, _ :: rest => skipDoctype .inside rest
  | .comment, '-' :: '-' :: '>' :: rest => skipDoctype .inside rest
  | .comment, _ :: rest => skipDoctype .comment rest
  | .instruction, '?' :: '>' :: rest => skipDoctype .inside rest
  | .instruction, _ :: rest => skipDoctype .instruction rest
  | .declaration none, '>' :: rest => skipDoctype .inside rest
  | .declaration none, c :: rest =>
    skipDoctype (.declaration (if c == '"' || c == '\'' then some c else none)) rest
  | .declaration (some q), c :: rest =>
    skipDoctype (.declaration (if c == q then none else some q)) rest
  | .closing, '>' :: rest => some rest
  | .closing, _ :: rest => skipDoctype .closing rest
  | _, [] => none

/-- What follows `start` in `cs`, up to the case of ASCII letters. -/
def stripIgnoreCase? (start cs : List Char) : Option (List Char) :=
  if Chars.eqIgnoreAsciiCase start (cs.take start.length) then some (cs.drop start.length) else none

/-- The text after `<!…>`: a comment, a character data section or the document type. -/
def skipDeclaration (cs : List Char) : Option (List Char) :=
  match cs with
  | '-' :: '-' :: rest => (Chars.splitFirst? ['-', '-', '>'] rest).map Prod.snd
  | _ =>
    match stripIgnoreCase? "[CDATA[".toList cs with
    | some rest => (Chars.splitFirst? [']', ']', '>'] rest).map Prod.snd
    | none => do
      let rest ← stripIgnoreCase? "DOCTYPE".toList cs
      match rest.dropWhile isBlank with
      | '>' :: _ => none
      | _ => skipDoctype (.outside none) rest

/-- The text after `<?…?>`. -/
def skipInstruction (cs : List Char) : Option (List Char) :=
  match cs with
  | '>' :: _ => none
  | _ => (Chars.splitFirst? ['?', '>'] cs).map Prod.snd

/-- The event of a start tag, given the text between its brackets. -/
def tagEvent (content : List Char) : Event :=
  let (isEmpty, content) :=
    match Chars.stripSuffix? ['/'] content with
    | some content => (true, content)
    | none => (false, content)
  let name := String.ofList (content.takeWhile (!isBlank ·))
  let after := content.dropWhile (!isBlank ·)
  let attributes := attributesFrom (after.length + 1) [] after
  if isEmpty then .empty name attributes else .start name attributes

/-- The text after a reference that starts here with `&`. -/
def skipReference (cs : List Char) : Option (List Char) :=
  match cs.dropWhile fun c => c != ';' && c != '&' && c != '<' with
  | ';' :: rest => some rest
  | _ => none

/--
The events from here on, where `opened` holds the names of the elements that are open, the innermost
first.
-/
def eventsFrom : Nat → List String → List Char → List Event
  | 0, _, _ => []
  | fuel + 1, opened, cs =>
    match cs.dropWhile isBlank with
    | [] => []
    | '<' :: '!' :: rest =>
      match skipDeclaration rest with
      | some rest => eventsFrom fuel opened rest
      | none => []
    | '<' :: '?' :: rest =>
      match skipInstruction rest with
      | some rest => eventsFrom fuel opened rest
      | none => []
    | '<' :: '/' :: rest =>
      match splitTag none rest, opened with
      | some (content, rest), innermost :: outer =>
        let name := String.ofList (Chars.dropEndWhile isBlank content)
        if name == innermost then .finish name :: eventsFrom fuel outer rest else []
      | _, _ => []
    | '<' :: rest =>
      match splitTag none rest with
      | some (content, rest) =>
        match tagEvent content with
        | .start name attributes =>
          .start name attributes :: eventsFrom fuel (name :: opened) rest
        | e => e :: eventsFrom fuel opened rest
      | none => []
    | '&' :: rest =>
      match skipReference rest with
      | some rest => eventsFrom fuel opened rest
      | none => []
    | c :: rest =>
      let isText (c : Char) : Bool := c != '<' && c != '&'
      let content := c :: rest.takeWhile isText
      .text (String.ofList (Chars.dropEndWhile isBlank content))
        :: eventsFrom fuel opened (rest.dropWhile isText)

/-- The events of a text; a byte order mark may stand before it. -/
def events (text : String) : List Event :=
  let cs := (Chars.stripPrefix? ['\ufeff'] text.toList).getD text.toList
  eventsFrom (cs.length + 1) [] cs

end SourceAtlas.Xml
