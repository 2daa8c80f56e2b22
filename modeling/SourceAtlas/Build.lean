import SourceAtlas.ChangeFilter
import SourceAtlas.Config.Basic
import SourceAtlas.Extract
import SourceAtlas.Merge
import SourceAtlas.Resolve.Call
import SourceAtlas.WorkPool

/-!
# Building the document of a repository

For each language every file is read, hashed and extracted, and all of them are indexed. The imports
and calls of the files that have changed are then resolved against that index; the other files stay
out of the document but can be referred to.
-/

namespace SourceAtlas

/-- The syntax tree of a file, by its path and text. -/
abbrev Grammar := (path text : String) → Tree

/-- Which files are to be extracted, and which are too large for it. -/
structure Selection where
  accepted : List (Language × String) := []
  oversize : List (Language × String) := []
  deriving DecidableEq, Repr

namespace Selection

/-- The paths of a language among some, each once and in increasing order. -/
def pathsOf (l : Language) (files : List (Language × String)) : List String :=
  (Dict.ofList ((files.filter (·.1 == l)).map fun (_, path) => (path, ()))).keys

/-- Whether there is nothing at all. -/
def isEmpty (s : Selection) : Bool :=
  s.accepted.isEmpty && s.oversize.isEmpty

/-- The languages of the files, in the order of processing. -/
def languages (s : Selection) : List Language :=
  Language.all.filter fun l => (s.accepted ++ s.oversize).any (·.1 == l)

/-- Adds a file of some size, if its language is scanned. -/
def add (scan : ScanConfig) (s : Selection) (path : String) (size : Nat) : Selection :=
  match Language.ofPath? path with
  | none => s
  | some l =>
    if scan.languages.contains l then
      if scan.maxFileSize < size then { s with oversize := s.oversize ++ [(l, path)] }
      else { s with accepted := s.accepted ++ [(l, path)] }
    else s

end Selection

/-- What stops the building of a document. -/
inductive BuildError where
  | config (e : ConfigError)
  /-- There is no directory at the root. -/
  | repositoryNotFound (root : String)
  /-- No file belongs to a language that is scanned. -/
  | noRecognizedFiles (place : String)
  /-- A pattern of the settings is malformed. -/
  | badPattern
  /-- The worker pool breaks down, and the whole build with it. -/
  | breakdown (fault : PoolFault)
  deriving DecidableEq, Repr

def BuildError.message? : BuildError → Option String
  | .config e => e.message?
  | .repositoryNotFound root => some ("Repository not found: " ++ root)
  | .noRecognizedFiles place => some ("No recognized source files under " ++ place)
  | .badPattern => none
  | .breakdown _ => none

/-- A document with what the next run needs to know. -/
structure BuildOutput where
  document : Document
  failures : List Failure
  /-- The hash of every file that was read. -/
  hashes : Dict String

/-- Everything that decides how a document is built. -/
structure Builder where
  config : Config
  grammar : Grammar
  changes : ChangeFilter := .none
  configFiles : List ConfigFile := []
  /-- The time that is written into the document. -/
  now : Instant
  /-- The number of processors at hand. -/
  processors : Nat := 1

namespace Builder

/-- A file that was read. -/
structure ReadFile where
  path : String
  text : String
  hash : String
  changed : Bool

/-- A file with what it declares, if anything could be made of it. -/
structure ParsedFile where
  source : ReadFile
  result : Except ExtractError Extraction

/-- The workers for the files of a language. -/
def pool (b : Builder) : WorkPool :=
  { workers := max 1 (b.config.parallel.workers.getD (b.processors - 1))
    threshold := b.config.parallel.minFiles
    enabled := b.config.parallel.enabled }

/-- Hashes a text and compares it with the earlier run. -/
def readFile (b : Builder) (path text : String) : ReadFile :=
  let hash := contentHash text
  { path, text, hash, changed := b.changes.isChanged path hash }

/-- The files among some paths that can be read. -/
def readFiles (b : Builder) (r : Repository) (paths : List String) : List ReadFile :=
  paths.filterMap fun path => (r.read? path).map (b.readFile path)

/-- Extracts what a file declares. -/
def parse (b : Builder) (l : Language) (f : ReadFile) : ParsedFile :=
  { source := f, result := extract l f.path f.text (b.grammar f.path f.text) }

/-- Registers a file; one that could not be parsed counts as a file without declarations. -/
def register (ix : Index) (f : ParsedFile) : Index :=
  match f.result with
  | .ok x => ix.add x
  | .error _ => ix.addFile f.source.path

/-- The index of all files of a language. -/
def indexOf (l : Language) (r : Repository) (parsed : List ParsedFile) : Index :=
  parsed.foldl register (Index.start l r)

/-- The record of a file, with its imports and calls resolved. -/
def record (ix : Index) (x : Extraction) (lines : Nat) : FileRecord :=
  let x := Resolve.resolve ix x
  FileRecord.collectImports
    { path := x.path
      language := Language.tagOfPath x.path
      lines
      imports := x.imports
      classes := x.classes
      functions := x.functions }

/-- The files to be recorded: those that have changed and could be parsed. -/
def toRecord (parsed : List ParsedFile) : List (Extraction × Nat) :=
  parsed.filterMap fun f =>
    match f.result with
    | .ok x => if f.source.changed then some (x, Text.countLines f.source.text) else none
    | .error _ => none

/-- The failure of a file that has changed and could not be parsed. -/
def parseFailure? (l : Language) (f : ParsedFile) : Option Failure :=
  match f.result with
  | .ok _ => none
  | .error e =>
    if f.source.changed then
      some { path := f.source.path, language := l, stage := .parse, message := e.message }
    else none

/-- Processes the files of a language at some paths. The pool goes over them twice. -/
def processLanguage (b : Builder) (r : Repository) (l : Language) (paths : List String) :
    Except PoolFault LanguageOutcome := do
  let read := b.readFiles r paths
  let unread := paths.filter fun path => (r.read? path).isNone
  let parsed ← b.pool.map (b.parse l) read
  let ix := indexOf l r parsed
  let files ← b.pool.map (fun (x, lines) => record ix x lines) (toRecord parsed)
  return {
    language := l
    files
    failures := unread.map (Failure.unreadable l) ++ parsed.filterMap (parseFailure? l)
    unchanged := (read.filter (!·.changed)).length }

/-- Adds the failures of the files that are too large. -/
def withOversize (b : Builder) (s : Selection) (o : LanguageOutcome) : LanguageOutcome :=
  let paths := (s.oversize.filter (·.1 == o.language)).map Prod.snd
  let failures := paths.map (Failure.oversize b.config.scan.maxFileSize o.language)
  { o with failures := o.failures ++ failures }

/-- Processes the languages of a selection, one after another. -/
def processLanguages (b : Builder) (r : Repository) (s : Selection) :
    Except PoolFault (List LanguageOutcome) :=
  s.languages.mapM fun l => do
    let outcome ← b.processLanguage r l (Selection.pathsOf l s.accepted)
    return b.withOversize s outcome

/-- The hashes of the files that are read. -/
def hashes (b : Builder) (r : Repository) (s : Selection) : Dict String :=
  Dict.ofList (s.languages.flatMap fun l =>
    (b.readFiles r (Selection.pathsOf l s.accepted)).map fun f => (f.path, f.hash))

/-- The output for the outcomes of the languages of a selection. -/
def outputOf (b : Builder) (name : String) (r : Repository) (s : Selection)
    (outcomes : List LanguageOutcome) : BuildOutput :=
  { document := Merge.document name b.now b.configFiles outcomes r
    failures := outcomes.flatMap (·.failures)
    hashes := b.hashes r s }

/-- Builds the document for a selection of the files of a repository. -/
def processSelection (b : Builder) (name : String) (r : Repository) (s : Selection) :
    Except BuildError BuildOutput :=
  match b.processLanguages r s with
  | .error fault => .error (.breakdown fault)
  | .ok outcomes => .ok (b.outputOf name r s outcomes)

/-- The sources with their paths in normal form. -/
def normalSources (sources : List (String × String)) : List (String × String) :=
  sources.map fun (path, text) => (RepoPath.normal path, text)

/-- The selection among sources with their texts. -/
def selectSources (scan : ScanConfig) (sources : List (String × String)) : Selection :=
  sources.foldl (fun s (path, text) => s.add scan path text.utf8ByteSize) {}

/--
Builds the document for sources that are given with their texts. The skeleton names further files of
the repository, which exist but are not extracted. The repository brings the paths to normal form
once more, which matters for a path such as `/./a` whose normal form `./a` is not its own.
-/
def ofSources (b : Builder) (name : String) (sources : List (String × String))
    (skeleton : List String) : Except BuildError BuildOutput :=
  match b.config.validate with
  | .error e => .error (.config e)
  | .ok _ =>
    let sources := normalSources sources
    let s := selectSources b.config.scan sources
    if s.isEmpty then .error (.noRecognizedFiles name)
    else b.processSelection name (Repository.ofSources sources skeleton) s

end Builder

end SourceAtlas
