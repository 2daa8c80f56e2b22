import SourceAtlas.RepoPath
import SourceAtlas.Text.Basic

/-!
# Languages

The language ecosystems that are read. Each has a module system of its own; TypeScript and
JavaScript are one ecosystem, since their modules import each other freely.
-/

namespace SourceAtlas

inductive Language where
  | go
  | java
  | python
  | typescript
  | csharp
  | apex
  deriving DecidableEq, Repr, Inhabited

namespace Language

/-- Every language, in the order in which a repository is processed. -/
def all : List Language :=
  [.go, .java, .python, .typescript, .csharp, .apex]

/-- The place in the processing order. -/
def rank : Language → Nat
  | .go => 0
  | .java => 1
  | .python => 2
  | .typescript => 3
  | .csharp => 4
  | .apex => 5

def name : Language → String
  | .go => "go"
  | .java => "java"
  | .python => "python"
  | .typescript => "typescript"
  | .csharp => "csharp"
  | .apex => "apex"

/-- The file extensions of a language, in small letters. -/
def extensions : Language → List String
  | .go => ["go"]
  | .java => ["java"]
  | .python => ["py"]
  | .typescript => ["ts", "tsx", "js", "jsx", "mjs", "cjs"]
  | .csharp => ["cs"]
  | .apex => ["cls", "trigger"]

/-- Whether names compare without regard to case. -/
def foldsCase (l : Language) : Bool :=
  l == .apex

/-- The language that owns a file extension, whatever its case. -/
def ofExtension? (ext : String) : Option Language :=
  all.find? fun l => l.extensions.contains (Text.asciiLower ext)

/-- The language that owns a path. -/
def ofPath? (path : String) : Option Language :=
  (RepoPath.fileExtension? path).bind ofExtension?

/-- The language with this name. -/
def ofName? (s : String) : Option Language :=
  all.find? (·.name == s)

/-- The tag written for a file, where JavaScript is told from TypeScript. -/
def tagOfPath (path : String) : String :=
  match Text.asciiLower ((RepoPath.fileExtension? path).getD "") with
  | "go" => "go"
  | "java" => "java"
  | "py" => "python"
  | "ts" | "tsx" => "typescript"
  | "js" | "jsx" | "mjs" | "cjs" => "javascript"
  | "cs" => "csharp"
  | "cls" | "trigger" => "apex"
  | _ => "unknown"

/-- A text that names no language. -/
structure Unknown where
  text : String
  deriving DecidableEq, Repr

def Unknown.message (e : Unknown) : String :=
  "unknown language: " ++ e.text

/-- The language a person means: its name or a usual short form, in any case. -/
def parse (s : String) : Except Unknown Language :=
  match Text.asciiLower (Text.trim s) with
  | "go" | "golang" => .ok .go
  | "java" => .ok .java
  | "python" | "py" => .ok .python
  | "typescript" | "ts" | "javascript" | "js" => .ok .typescript
  | "csharp" | "c#" | "cs" => .ok .csharp
  | "apex" | "salesforce" => .ok .apex
  | other => .error ⟨other⟩

/-! ### Which extractor reads a file -/

/-- The language whose extractor reads files with an extension, whatever its case. -/
def extractorOf? (ext : String) : Option Language :=
  all.find? fun l => l.extensions.contains (Text.lower ext)

/-- The language whose extractor reads a path. -/
def extractorOfPath? (path : String) : Option Language :=
  (RepoPath.fileExtension? path).bind extractorOf?

/-- Whether the extractor of a language takes an extension. -/
def takes (l : Language) (ext : String) : Bool :=
  l.extensions.any (Text.eqIgnoreAsciiCase · ext)

end Language

end SourceAtlas
