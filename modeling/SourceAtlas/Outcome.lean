import SourceAtlas.Language
import SourceAtlas.Model.File
import SourceAtlas.Model.Project
import SourceAtlas.Total

/-!
# What the files of a language came to

A file that cannot be used never stops the work: it is left out, and the failure tells why.
-/

namespace SourceAtlas

/-- Where a file dropped out. -/
inductive FailureStage where
  | read
  | oversize
  | parse
  | worker
  deriving DecidableEq, Repr

def FailureStage.name : FailureStage → String
  | .read => "read"
  | .oversize => "oversize"
  | .parse => "parse"
  | .worker => "worker"

/-- A file that was left out. -/
structure Failure where
  path : String
  language : Language
  stage : FailureStage
  message : String
  deriving DecidableEq, Repr

namespace Failure

/-- The failure of a file that is no text. -/
def unreadable (language : Language) (path : String) : Failure :=
  { path, language, stage := .read, message := "not readable as UTF-8 text" }

/-- The failure of a file above the limit of the size. -/
def oversize (limit : Nat) (language : Language) (path : String) : Failure :=
  { path, language, stage := .oversize
    message := "larger than " ++ Text.ofNat limit ++ " bytes" }

end Failure

/-- Everything that the files of a language came to. -/
structure LanguageOutcome where
  language : Language
  files : List FileRecord := []
  failures : List Failure := []
  /-- The number of files that had not changed. -/
  unchanged : Nat := 0

namespace LanguageOutcome

/-- The counts of an outcome. -/
def summary (o : LanguageOutcome) : LanguageSummary :=
  { files := o.files.length
    classes := total (·.classes.length) o.files
    functions := total (·.functions.length) o.files
    failedFiles := o.failures.length
    unchangedFiles := o.unchanged }

end LanguageOutcome

/-- The counts of two groups of files of a language taken together. -/
def LanguageSummary.add (a b : LanguageSummary) : LanguageSummary :=
  { files := a.files + b.files
    classes := a.classes + b.classes
    functions := a.functions + b.functions
    failedFiles := a.failedFiles + b.failedFiles
    unchangedFiles := a.unchangedFiles + b.unchangedFiles }

end SourceAtlas
