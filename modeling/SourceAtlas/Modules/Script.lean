import SourceAtlas.Json.Read
import SourceAtlas.Repository

/-!
# Path aliases of scripts

A `tsconfig.json` or `jsconfig.json` at the root may give a base directory and aliases for module
specifiers. Such a file is JSON in which comments and commas before a closing bracket are allowed.
-/

namespace SourceAtlas

/-- The base directory and the aliases: patterns, where `*` stands for any text, with targets. -/
structure ScriptPaths where
  baseUrl : Option String := none
  aliases : List (String × List String) := []
  deriving DecidableEq, Repr, Inhabited

namespace ScriptPaths

/-! ### Relaxed JSON -/

mutual

/-- Copies text outside of strings, leaving comments out. -/
def dropComments : List Char → List Char
  | [] => []
  | '"' :: rest => '"' :: copyString rest
  | '/' :: '/' :: rest => dropLine rest
  | '/' :: '*' :: rest => dropBlock rest
  | c :: rest => c :: dropComments rest

/-- Copies a string up to its closing quote. -/
def copyString : List Char → List Char
  | [] => []
  | '\\' :: c :: rest => '\\' :: c :: copyString rest
  | '"' :: rest => '"' :: dropComments rest
  | c :: rest => c :: copyString rest

/-- Leaves out a comment up to the end of the line. -/
def dropLine : List Char → List Char
  | [] => []
  | '\n' :: rest => '\n' :: dropComments rest
  | _ :: rest => dropLine rest

/-- Leaves out a comment up to its closing mark. -/
def dropBlock : List Char → List Char
  | [] => []
  | '*' :: '/' :: rest => dropComments rest
  | _ :: rest => dropBlock rest

end

/-- Whether the first character that is no blank closes an object or an array. -/
def closesNext (cs : List Char) : Bool :=
  match (cs.dropWhile Text.isWhitespace).head? with
  | some c => c == '\x7d' || c == ']'
  | none => false

/-- Leaves out the commas that stand before a closing bracket. -/
def dropCommas : List Char → List Char
  | [] => []
  | c :: rest => if c == ',' && closesNext rest then dropCommas rest else c :: dropCommas rest

/-- The text without comments and without commas before closing brackets. -/
def strict (cs : List Char) : List Char :=
  dropCommas (dropComments cs)

/-- Reads JSON, and if that fails JSON with comments and surplus commas. -/
def readRelaxed? (text : String) : Option Json :=
  (Json.readChars? text.toList).or (Json.readChars? (strict text.toList))

/-! ### Aliases -/

/-- The aliases under `paths`, in the order of the patterns. -/
def aliasesOf : Json → List (String × List String)
  | .obj members =>
    members.map fun (pattern, targets) =>
      (pattern, (targets.asArray?.getD []).filterMap (·.asString?))
  | _ => []

/-- Reads the aliases of a configuration in a directory; none if it has neither base nor aliases. -/
def parse? (dir text : String) : Option ScriptPaths := do
  let value := (← readRelaxed? text).canonical
  let options ← value.member? "compilerOptions"
  let baseUrl := ((options.member? "baseUrl").bind (·.asString?)).bind (RepoPath.join? dir)
  let aliases := ((options.member? "paths").map aliasesOf).getD []
  if baseUrl.isNone && aliases.isEmpty then none else some { baseUrl, aliases }

/-- The text that `*` stands for where a pattern matches a specifier. -/
def captured? (pattern specifier : String) : Option String :=
  match Text.splitFirst? pattern "*" with
  | some (start, final) => do
    let rest ← Text.stripPrefix? specifier start
    Text.stripSuffix? rest final
  | none => if pattern == specifier then some "" else none

/-- A target with a text in place of every `*`. -/
def fill (target captured : String) : String :=
  String.ofList (target.toList.flatMap fun c => if c == '*' then captured.toList else [c])

/-- The paths that a specifier may stand for, in order of preference. -/
def candidates (p : ScriptPaths) (specifier : String) : List String :=
  let base := p.baseUrl.getD ""
  let aliased := p.aliases.flatMap fun (pattern, targets) =>
    match captured? pattern specifier with
    | some captured => targets.filterMap fun target => RepoPath.join? base (fill target captured)
    | none => []
  aliased ++ (if p.baseUrl.isSome then (RepoPath.join? base specifier).toList else [])

/-- The aliases of a repository: those of the first configuration that gives some. -/
def ofRepository? (r : Repository) : Option ScriptPaths :=
  (["tsconfig.json", "jsconfig.json"].filter r.contains).findSome? fun name => do
    parse? "" (← r.read? name)

end ScriptPaths

end SourceAtlas
