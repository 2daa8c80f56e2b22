import SourceAtlas.Extract.Apex
import SourceAtlas.Extract.CSharp
import SourceAtlas.Extract.Go
import SourceAtlas.Extract.Java
import SourceAtlas.Extract.Python
import SourceAtlas.Extract.TypeScript
import SourceAtlas.Language

/-!
# Declarations of a source file

A file is read from its text and its tree. Grammars recover from most errors, so only a file whose
root is an error has no declarations at all.
-/

namespace SourceAtlas

/-- Why a file has no declarations. -/
inductive ExtractError where
  /-- The grammar made nothing of the text. -/
  | unsupported (grammar : String)
  deriving DecidableEq, Repr

def ExtractError.message : ExtractError → String
  | .unsupported grammar => "Unsupported " ++ grammar ++ " syntax"

/-- The name of the grammar for a file of a language. -/
def grammarName (l : Language) (path : String) : String :=
  match l with
  | .go => "Go"
  | .java => "Java"
  | .python => "Python"
  | .typescript => Extract.TypeScript.grammarOf path
  | .csharp => "C#"
  | .apex => "Apex"

/-- What a file of a language declares. -/
def extract (l : Language) (path text : String) (tree : Tree) : Except ExtractError Extraction :=
  if tree.kind == "ERROR" then .error (.unsupported (grammarName l path))
  else
    let s := SourceText.ofString text
    .ok <|
      match l with
      | .go => Extract.Go.extract path s tree
      | .java => Extract.Java.extract path s tree
      | .python => Extract.Python.extract path s tree
      | .typescript => Extract.TypeScript.extract path s tree
      | .csharp => Extract.CSharp.extract path s tree
      | .apex => Extract.Apex.extract path s tree

end SourceAtlas
