import SourceAtlas.Language

/-!
# Settings

What is scanned, how the work is divided, and in which form the result is written.
-/

namespace SourceAtlas

/-- Which files are scanned. -/
structure ScanConfig where
  languages : List Language
  /-- Names of directories that are left out, at any depth. -/
  excludeDirs : List String
  /-- Patterns for names of files that are left out, at any depth. -/
  excludePatterns : List String
  /-- The size in bytes above which a file is left out. -/
  maxFileSize : Nat
  deriving DecidableEq, Repr

/-- How the work is divided. -/
structure ParallelConfig where
  enabled : Bool
  /-- The number of workers; none leaves it to the machine. -/
  workers : Option Nat
  /-- The number of files of a language from which on the work is divided. -/
  minFiles : Nat
  deriving DecidableEq, Repr

/-- The form of the result. -/
structure OutputConfig where
  /-- Only the list of files, as in older versions of the format. -/
  legacyArray : Bool
  pretty : Bool
  deriving DecidableEq, Repr

structure Config where
  scan : ScanConfig
  parallel : ParallelConfig
  output : OutputConfig
  deriving DecidableEq, Repr

/-- Directories of version control, dependencies, build outputs, test data and tools. -/
def ScanConfig.defaultExcludeDirs : List String :=
  [".git", ".svn", ".hg",
   "node_modules", "vendor", "venv", ".venv", "__pycache__",
   "build", "dist", "bin", "obj", "target", "out",
   "testdata", "test-data", "test_data", "__fixtures__",
   ".sfdx", ".next", "coverage"]

/-- Files that are generated or bundled. -/
def ScanConfig.defaultExcludePatterns : List String :=
  ["*.pb.go", "*_generated.go", "*.gen.go", "*_mock.go",
   "*.g.cs", "*.g.i.cs", "*.designer.cs", "*.Designer.cs", "*.AssemblyInfo.cs",
   "*.min.js", "*.bundle.js", "*.d.ts",
   "*_pb2.py", "*_pb2_grpc.py"]

def ScanConfig.default : ScanConfig :=
  { languages := Language.all
    excludeDirs := defaultExcludeDirs
    excludePatterns := defaultExcludePatterns
    maxFileSize := 2 * 1024 * 1024 }

def ParallelConfig.default : ParallelConfig :=
  { enabled := true, workers := none, minFiles := 200 }

def OutputConfig.default : OutputConfig :=
  { legacyArray := false, pretty := false }

def Config.default : Config :=
  { scan := .default, parallel := .default, output := .default }

/-- The number of workers that is set, but at least one. -/
def ParallelConfig.workerCount? (p : ParallelConfig) : Option Nat :=
  p.workers.map (max 1)

/-- What is wrong with settings. -/
inductive ConfigError where
  /-- The file cannot be read. -/
  | unreadable
  /-- The text is not in the format, or a value has the wrong type. -/
  | malformed
  | noLanguages
  | noWorkers
  | unknownLanguage (e : Language.Unknown)
  deriving DecidableEq, Repr

namespace Config

/-- Refuses settings that no run can honour. -/
def validate (c : Config) : Except ConfigError Unit :=
  if c.scan.languages.isEmpty then .error .noLanguages
  else if c.parallel.workers == some 0 then .error .noWorkers
  else .ok ()

end Config

/-- What is invalid, in words; nothing for a file that is unreadable or malformed. -/
def ConfigError.reason? : ConfigError → Option String
  | .unreadable => none
  | .malformed => none
  | .noLanguages => some "scan.languages must name at least one language"
  | .noWorkers => some "parallel.workers must be greater than zero"
  | .unknownLanguage e => some e.message

/-- The message for settings that are invalid. -/
def ConfigError.message? (e : ConfigError) : Option String :=
  e.reason?.map ("Invalid configuration: " ++ ·)

end SourceAtlas
