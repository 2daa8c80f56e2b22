import SourceAtlas.Manifest.Requirement

/-!
# Manifests read line by line

Go modules, lists of Python requirements, and build scripts, in which requirements are recognised
without reading the language that they are written in.
-/

namespace SourceAtlas.Manifest

/-! ### Go modules -/

/-- The requirement of one line: a module and its version. -/
def goRequirement? (line : String) : Option Requirement :=
  match Text.words line with
  | [] => none
  | name :: rest => some { name, version := rest.head? }

/-- A line without its comment and the blanks around it. -/
def withoutComment (mark line : String) : String :=
  Text.trim (((Text.splitFirst? line mark).map Prod.fst).getD line)

/-- The requirements of lines; `inBlock` tells whether the lines are those of a `require` block. -/
def goRequirements : (inBlock : Bool) → List String → List Requirement
  | _, [] => []
  | true, line :: rest =>
    if Text.startsWith line ")" then goRequirements false rest
    else (goRequirement? line).toList ++ goRequirements true rest
  | false, line :: rest =>
    match Text.stripPrefix? line "require" with
    | none => goRequirements false rest
    | some entry =>
      let entry := Text.trim entry
      if Text.startsWith entry "(" then goRequirements true rest
      else (goRequirement? entry).toList ++ goRequirements false rest

/-- The modules that a Go module requires. -/
def ofGoModule (text : String) : List Requirement :=
  goRequirements false ((Text.lines text).map (withoutComment "//"))

/-! ### Lists of Python requirements -/

/-- The requirements of a list, one a line. Lines with options do not count. -/
def ofRequirementList (text : String) : List Requirement :=
  (Text.lines text).filterMap fun line =>
    let line := withoutComment "#" line
    if line.isEmpty || Text.startsWith line "-" then none else Requirement.parse? line

/-! ### Python setup scripts -/

/-- The text between the brackets after `install_requires =`, where it stands first. -/
def installRequires? : List Char → Option (List Char)
  | [] => none
  | c :: cs =>
    let here : Option (List Char) := do
      let rest ← Chars.stripPrefix? "install_requires".toList (c :: cs)
      let rest ← Chars.stripPrefix? ['='] (rest.dropWhile Text.isWhitespace)
      let rest ← Chars.stripPrefix? ['['] (rest.dropWhile Text.isWhitespace)
      (Chars.splitFirst? [']'] rest).map Prod.fst
    here.or (installRequires? cs)

def isQuote (c : Char) : Bool :=
  c == '"' || c == '\''

/--
The texts between quotes of either kind, the empty ones left out. `body` holds what was read since
the last opening quote, last character first.
-/
def quoted : (body : Option (List Char)) → List Char → List String
  | _, [] => []
  | none, c :: cs => quoted (if isQuote c then some [] else none) cs
  | some body, c :: cs =>
    if isQuote c then
      if body.isEmpty then quoted (some []) cs
      else String.ofList body.reverse :: quoted none cs
    else quoted (some (c :: body)) cs

/-- The requirements that a setup script installs. -/
def ofSetupScript (text : String) : List Requirement :=
  match installRequires? text.toList with
  | none => []
  | some list => (quoted none list).filterMap Requirement.parse?

/-! ### Gradle build scripts -/

/-- The words that declare a dependency. -/
def gradleKeywords : List String :=
  ["implementation", "api", "compile", "compileOnly", "runtimeOnly", "testImplementation",
   "testRuntimeOnly", "annotationProcessor", "kapt"]

/-- A character of a group or an artifact. -/
def isCoordinateChar (c : Char) : Bool :=
  !isQuote c && c != ':' && !Text.isWhitespace c

/-- Splits off the longest run of characters satisfying `p`, which must not be empty. -/
def takeRun? (p : Char → Bool) (cs : List Char) : Option (List Char × List Char) :=
  let run := cs.takeWhile p
  if run.isEmpty then none else some (run, cs.dropWhile p)

/-- The text after a quote. -/
def skipQuote? : List Char → Option (List Char)
  | c :: rest => if isQuote c then some rest else none
  | [] => none

/-- Reads `group:artifact:version` in quotes, where the version may be left out. -/
def coordinates? (cs : List Char) : Option (Requirement × List Char) := do
  let cs ← skipQuote? cs
  let (group, cs) ← takeRun? isCoordinateChar cs
  let cs ← Chars.stripPrefix? [':'] cs
  let (artifact, cs) ← takeRun? isCoordinateChar cs
  let name := String.ofList (group ++ ':' :: artifact)
  match cs with
  | ':' :: cs => do
    let (version, cs) ← takeRun? (fun c => !isQuote c && !Text.isWhitespace c) cs
    let rest ← skipQuote? cs
    return ({ name, version := some (String.ofList version) }, rest)
  | cs => do
    let rest ← skipQuote? cs
    return ({ name }, rest)

/-- The dependency that a line declares, and the text after it. It may span several lines. -/
def gradleDependency? (line : List Char) : Option (Requirement × List Char) :=
  let cs := line.dropWhile Text.isWhitespace
  gradleKeywords.findSome? fun keyword => do
    let rest ← Chars.stripPrefix? keyword.toList cs
    let rest := rest.dropWhile Text.isWhitespace
    let rest := (Chars.stripPrefix? ['('] rest).getD rest
    coordinates? (rest.dropWhile Text.isWhitespace)

/-- The dependencies that the lines of a script declare; `atStart` tells that a line starts here. -/
def gradleFrom : Nat → (atStart : Bool) → List Char → List Requirement
  | 0, _, _ => []
  | fuel + 1, atStart, cs =>
    match if atStart then gradleDependency? cs else none with
    | some (r, rest) => r :: gradleFrom fuel false rest
    | none =>
      match cs with
      | [] => []
      | c :: rest => gradleFrom fuel (c == '\n') rest

/-- The dependencies that a Gradle build script declares. -/
def ofGradle (text : String) : List Requirement :=
  gradleFrom (text.length + 1) true text.toList

end SourceAtlas.Manifest
