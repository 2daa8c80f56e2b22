import SourceAtlas.Manifest.Lines
import SourceAtlas.Manifest.Structured
import SourceAtlas.Model.Project
import SourceAtlas.Repository

/-!
# The inventory of a repository

Build tools and declared dependencies, taken from the manifests that are known by their names. A
manifest that cannot be read still shows that its tool is used.
-/

namespace SourceAtlas

namespace Manifest

/-- The kinds of manifests. -/
inductive Kind where
  | goModule
  | npmPackage
  | mavenProject
  | gradleScript
  | requirementList
  | pythonProject
  | pipfile
  | setupScript
  | nugetPackages
  | dotnetProject
  | salesforceProject
  deriving DecidableEq, Repr

namespace Kind

/-- The kind of the manifest at a path, if it is one. -/
def ofPath? (path : String) : Option Kind :=
  match RepoPath.baseName path with
  | "go.mod" => some .goModule
  | "package.json" => some .npmPackage
  | "pom.xml" => some .mavenProject
  | "build.gradle" => some .gradleScript
  | "build.gradle.kts" => some .gradleScript
  | "requirements.txt" => some .requirementList
  | "pyproject.toml" => some .pythonProject
  | "Pipfile" => some .pipfile
  | "setup.py" => some .setupScript
  | "packages.config" => some .nugetPackages
  | "sfdx-project.json" => some .salesforceProject
  | _ => if RepoPath.extension? path = some "csproj" then some .dotnetProject else none

/-- The tool that works with manifests of a kind. -/
def tool : Kind → String
  | .goModule => "go"
  | .npmPackage => "npm"
  | .mavenProject => "maven"
  | .gradleScript => "gradle"
  | .requirementList => "pip"
  | .pythonProject => "pyproject"
  | .pipfile => "pipenv"
  | .setupScript => "setuptools"
  | .nugetPackages => "nuget"
  | .dotnetProject => "dotnet"
  | .salesforceProject => "sfdx"

/-- The package universe in which manifests of a kind name packages. -/
def ecosystem : Kind → String
  | .goModule => "go"
  | .npmPackage => "npm"
  | .mavenProject => "maven"
  | .gradleScript => "gradle"
  | .requirementList | .pythonProject | .pipfile | .setupScript => "pypi"
  | .nugetPackages | .dotnetProject => "nuget"
  | .salesforceProject => "salesforce"

/-- What the text of a manifest requires. -/
def requirements : Kind → String → List Requirement
  | .goModule => ofGoModule
  | .npmPackage => ofNpmPackage
  | .mavenProject => ofMavenProject
  | .gradleScript => ofGradle
  | .requirementList => ofRequirementList
  | .pythonProject => fun text => (ofPythonProject text).1
  | .pipfile => ofPipfile
  | .setupScript => ofSetupScript
  | .nugetPackages | .dotnetProject => ofNugetReferences
  | .salesforceProject => ofSalesforceProject

/-- The tool that a manifest is for, where its text tells more than its name. -/
def toolFor (k : Kind) (text : Option String) : String :=
  match k, text with
  | .pythonProject, some text => if (ofPythonProject text).2 then "poetry" else k.tool
  | _, _ => k.tool

end Kind

end Manifest

/-- Build tools and dependencies, in the order of the manifests that show them. -/
structure Inventory where
  buildTools : List BuildTool
  dependencies : List Dependency
  deriving DecidableEq, Repr

namespace Inventory

/-- The manifests of a repository with their kinds, in the order of their paths. -/
def manifests (r : Repository) : List (String × Manifest.Kind) :=
  r.paths.filterMap fun path => (Manifest.Kind.ofPath? path).map (path, ·)

/-- The dependencies that one manifest declares. -/
def dependenciesOf (r : Repository) (path : String) (kind : Manifest.Kind) : List Dependency :=
  match r.read? path with
  | none => []
  | some text =>
    (kind.requirements text).map fun q =>
      { name := q.name
        version := q.withoutAnyVersion.version
        ecosystem := kind.ecosystem
        file := path }

/-- The inventory of a repository. -/
def ofRepository (r : Repository) : Inventory :=
  { buildTools :=
      (manifests r).map fun (path, kind) => { name := kind.toolFor (r.read? path), file := path }
    dependencies := (manifests r).flatMap fun (path, kind) => dependenciesOf r path kind }

end Inventory

end SourceAtlas
