import SourceAtlas.Manifest.Inventory
import SourceAtlas.Model.Document
import SourceAtlas.Outcome
import SourceAtlas.Total

/-!
# One document from all languages

The files of the outcomes one after another, with their totals and the inventory of the repository.
No file is left out here and none is merged with another.
-/

namespace SourceAtlas

namespace Merge

/-- The counts by language; an outcome adds to what an earlier one of its language counted. -/
def summaries (outcomes : List LanguageOutcome) : Dict LanguageSummary :=
  outcomes.foldl
    (fun d o => d.update o.language.name fun s => (s.getD {}).add o.summary)
    Dict.empty

/-- The lines of a file: those of its text if that is at hand, else as recorded. -/
def linesOf (r : Repository) (f : FileRecord) : Nat :=
  ((r.read? f.path).map Text.countLines).getD f.lines

/-- The document of a project, made at `now`. -/
def document (name : String) (now : Instant) (configFiles : List ConfigFile)
    (outcomes : List LanguageOutcome) (r : Repository) : Document :=
  let files := outcomes.flatMap (·.files)
  let inventory := Inventory.ofRepository r
  { project :=
      { name
        generatedAt := now
        totalFiles := files.length
        totalClasses := total (·.classes.length) files
        totalFunctions := total (·.functions.length) files
        totalLines := total (linesOf r) files
        totalCalls := total (·.callCount) files
        resolvedCalls := total (·.resolvedCallCount) files
        languages := summaries outcomes
        buildTools := inventory.buildTools
        dependencies := inventory.dependencies
        configFiles }
    files }

end Merge

end SourceAtlas
