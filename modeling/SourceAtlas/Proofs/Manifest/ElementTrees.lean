import Mathlib.Data.List.Basic
import SourceAtlas.Manifest.Inventory
import SourceAtlas.Proofs.Dict
import SourceAtlas.Proofs.Xml.Written

/-!
# XML manifests as element trees

Dependencies are read from XML one event at a time, with what is known so far kept aside: the names
of the open elements and the fields of a Maven dependency, or the open reference to a package. Here
they are what the element tree says they are, so nothing is carried from one element into the next.

* **Maven.** `mavenRequirements` picks out the elements by their place and reads their fields. What
  the reader does depends on where it stands: outside the way to a dependency nothing changes
  (`MavenProgress.run_of_offWay`), in a field its text is noted (`MavenProgress.run_field`), in a
  dependency all fields are (`MavenProgress.run_dependency`), and on the way to one nothing is noted
  between elements (`MavenProgress.run_children`).
* **NuGet.** `nugetRequirements` lists the references in document order. Their contents are leaves
  and hold no further reference (`hasPlainReferences`).
-/

namespace SourceAtlas.Manifest

open Xml (Content localName)

/-! ## Maven projects -/

/-- What a dependency element requires, if it has a group and an artifact. -/
def mavenRequirement? (dependency : Content) : Option Requirement := do
  let group ← dependency.field? "groupId"
  let artifact ← dependency.field? "artifactId"
  return { name := group ++ ":" ++ artifact, version := dependency.field? "version" }

/-- The requirements of the elements at `project/dependencies/dependency`, in document order. -/
def mavenRequirements (doc : Content) : List Requirement :=
  (doc.children "project").flatMap fun project =>
    (project.children "dependencies").flatMap fun dependencies =>
      (dependencies.children "dependency").filterMap mavenRequirement?

namespace MavenProgress

variable {p : MavenProgress}

theorem setField_eq (p : MavenProgress) (field value : String) :
    p.setField field value =
      { p with
        group := if field = "groupId" then some value else p.group
        artifact := if field = "artifactId" then some value else p.artifact
        version := if field = "version" then some value else p.version } := by
  unfold setField
  split
  · rfl
  · rfl
  · rfl
  · rename_i hgroup hartifact hversion
    rw [if_neg hgroup, if_neg hartifact, if_neg hversion]

theorem setField_setField (p : MavenProgress) (field value value' : String) :
    (p.setField field value).setField field value' = p.setField field value' := by
  -- the condition is the same in both updates, so the inner one never shows
  have hlast : ∀ {c : Prop} [Decidable c] (x y z : Option String),
      (if c then x else if c then y else z) = if c then x else z := by
    intro c _ x y z
    split
    · rfl
    · rfl
  simp only [setField_eq, hlast]

/-- No element in here is a dependency, or a field of one. -/
def OffWay (path : List String) : Prop :=
  ¬ path <:+ dependencyPath ∧ path.tail ≠ dependencyPath

theorem OffWay.ne_dependencyPath {path : List String} (h : OffWay path) :
    path ≠ dependencyPath :=
  fun heq => h.1 (heq ▸ List.suffix_refl path)

theorem OffWay.cons {path : List String} (h : OffWay path) (name : String) :
    OffWay (name :: path) :=
  ⟨fun hsuffix => h.1 ((List.suffix_cons name path).trans hsuffix), h.ne_dependencyPath⟩

theorem add_finish (name : String) (h : p.path ≠ dependencyPath) :
    p.add (.finish name) = { p with path := p.path.tail } := by
  rw [add, if_neg h]

theorem add_finish_dependency (name : String) (h : p.path = dependencyPath) :
    p.add (.finish name) = { p.finishDependency with path := p.path.tail } := by
  rw [add, if_pos h]
  rfl

theorem add_text (content : String) (h : p.path.tail ≠ dependencyPath) :
    p.add (.text content) = p := by
  obtain ⟨path, group, artifact, version, found⟩ := p
  cases path with
  | nil => rfl
  | cons field path => exact if_neg h

/-- Outside the way to a dependency nothing changes. -/
theorem run_of_offWay (c : Content) (h : OffWay p.path) : c.run add p = p := by
  induction c generalizing p with
  | nil => rfl
  | text content after ih =>
    rw [Content.run_text_of_passed fun content => add_text content h.2]
    exact ih h
  | closed name attributes after ih => exact ih h
  | element name attributes inside after ihInside ihAfter =>
    -- whatever is opened here stays off the way
    have hinside : OffWay (localName name :: p.path) := h.cons _
    rw [Content.run_element, ihInside hinside, add_finish name hinside.ne_dependencyPath]
    exact ihAfter h

/-- In a field of a dependency its text is noted. -/
theorem run_field {field : String} (c : Content) (h : p.path = field :: dependencyPath) :
    c.run add p = c.text?.elim p (p.setField field) := by
  induction c generalizing p with
  | nil => rfl
  | text content after ih =>
    rw [Content.run_text, Content.text?_text]
    cases Xml.trimmed? content with
    | none =>
      rw [Option.map_none, Option.or_none]
      exact ih h
    | some content =>
      have hadd : p.add (.text content) = p.setField field (Text.trim content) := by
        unfold add
        simp only [h, if_true]
      -- the text changes a field and not the path
      have hpath : (p.setField field (Text.trim content)).path = field :: dependencyPath := by
        rw [setField_eq]
        exact h
      rw [Option.elim_some, hadd, ih hpath]
      cases after.text? with
      | none => rfl
      | some value =>
        -- the later run takes the place of the one noted before
        exact setField_setField ..
  | closed name attributes after ih => exact ih h
  | element name attributes inside after ihInside ihAfter =>
    -- an element inside a field is one step too deep
    have hinside : OffWay (localName name :: p.path) := by
      rw [h]
      simp [OffWay, dependencyPath, List.suffix_cons_iff]
    rw [Content.run_element, run_of_offWay inside hinside,
      add_finish name hinside.ne_dependencyPath]
    exact ihAfter h

/-- A child of a dependency leaves behind its text, if it is one of the fields. -/
theorem run_child (name : String) (attributes : List (String × String)) (inside : Content)
    (h : p.path = dependencyPath) :
    (inside.run add (p.add (.start name attributes))).add (.finish name)
      = inside.text?.elim p (p.setField (localName name)) := by
  have hfinish : localName name :: p.path ≠ dependencyPath := by
    rw [h]
    simp [dependencyPath]
  rw [run_field inside (congrArg (localName name :: ·) h)]
  cases inside.text? with
  | none => exact add_finish name hfinish
  | some value =>
    rw [Option.elim_some, Option.elim_some, setField_eq, setField_eq]
    exact add_finish name hfinish

theorem or_ite_some {c : Prop} [Decidable c] (x z : Option String) (value : String) :
    x.or (if c then some value else z) = (x.or (if c then some value else none)).or z := by
  rw [Option.or_assoc]
  split
  · rfl
  · rfl

/-- In a dependency all its fields are noted. -/
theorem run_dependency (c : Content) (h : p.path = dependencyPath) :
    c.run add p =
      { p with
        group := (c.field? "groupId").or p.group
        artifact := (c.field? "artifactId").or p.artifact
        version := (c.field? "version").or p.version } := by
  induction c generalizing p with
  | nil => rfl
  | text content after ih =>
    -- text between the fields is no field's text
    have htail : p.path.tail ≠ dependencyPath := by
      rw [h]
      decide
    rw [Content.run_text_of_passed fun content => add_text content htail]
    exact ih h
  | closed name attributes after ih =>
    simp only [Content.field?_closed]
    exact ih h
  | element name attributes inside after ihInside ihAfter =>
    rw [Content.run_element, run_child name attributes inside h]
    cases htext : inside.text? with
    | none =>
      simp only [Option.elim_none, ihAfter h, Content.field?_element, htext, ite_self,
        Option.or_none]
    | some value =>
      have hpath : (p.setField (localName name) value).path = dependencyPath := by
        rw [setField_eq]
        exact h
      rw [Option.elim_some, ihAfter hpath]
      -- the new value goes behind what the rest of the contents says, field by field
      simp only [setField_eq, Content.field?_element, htext, or_ite_some _ p.group,
        or_ite_some _ p.artifact, or_ite_some _ p.version]

/--
On the way to the dependencies, only the elements with one name lead on. Between them nothing is
noted, so each starts without any field.
-/
theorem run_children {path : List String} {key : String} {meaning : Content → List Requirement}
    (htext : path.tail ≠ dependencyPath) (hother : ∀ name, name ≠ key → OffWay (name :: path))
    (hnil : meaning .nil = [])
    (hchild : ∀ (name : String) (inside : Content) (found : List Requirement),
      (inside.run add { path := key :: path, found }).add (.finish name)
        = { path, found := found ++ meaning inside })
    (c : Content) (found : List Requirement) :
    c.run add { path, found } = { path, found := found ++ (c.children key).flatMap meaning } := by
  induction c generalizing found with
  | nil => exact congrArg _ (List.append_nil found).symm
  | text content after ih =>
    rw [Content.run_text_of_passed fun content => add_text content htext]
    exact ih found
  | closed name attributes after ih =>
    -- an element without contents opens nothing, so it means as much as `nil`
    have hclosed : ((Content.closed name attributes after).children key).flatMap meaning
        = (after.children key).flatMap meaning := by
      rw [Content.children, List.flatMap_append]
      split
      · rw [List.flatMap_singleton, hnil, List.nil_append]
      · rfl
    rw [hclosed]
    exact ih found
  | element name attributes inside after ihInside ihAfter =>
    rw [Content.run_element, Content.children, List.flatMap_append, ← List.append_assoc]
    by_cases hname : localName name = key
    · subst hname
      rw [if_pos rfl, List.flatMap_singleton, ← ihAfter]
      exact congrArg (after.run add) (hchild name inside found)
    · -- an element of another name leads off the way
      have hoff := hother _ hname
      have hstart : OffWay (MavenProgress.add { path, found } (.start name attributes)).path := hoff
      rw [if_neg hname, run_of_offWay inside hstart, add_finish name hoff.ne_dependencyPath,
        List.flatMap_nil, List.append_nil]
      exact ihAfter found

theorem run_dependencies (c : Content) (found : List Requirement) :
    c.run add { path := ["dependencies", "project"], found }
      = { path := ["dependencies", "project"]
          found := found ++ (c.children "dependency").filterMap mavenRequirement? } := by
  rw [List.filterMap_eq_flatMap_toList]
  apply run_children
  · decide
  · intro name hname
    simp [OffWay, dependencyPath, List.suffix_cons_iff, hname]
  · rfl
  · intro name inside found
    -- at the end tag the fields become a requirement, and are forgotten either way
    rw [run_dependency inside rfl, add_finish_dependency name rfl, mavenRequirement?]
    simp only [finishDependency, Option.or_none]
    cases inside.field? "groupId" with
    | none => simp
    | some group =>
      cases inside.field? "artifactId" with
      | none => simp
      | some artifact => rfl

theorem run_project (c : Content) (found : List Requirement) :
    c.run add { path := ["project"], found }
      = { path := ["project"]
          found := found ++ (c.children "dependencies").flatMap fun dependencies =>
            (dependencies.children "dependency").filterMap mavenRequirement? } := by
  apply run_children
  · decide
  · intro name hname
    simp [OffWay, dependencyPath, List.suffix_cons_iff, hname]
  · rfl
  · intro name inside found
    rw [run_dependencies]
    exact add_finish name (show ["dependencies", "project"] ≠ dependencyPath by decide)

theorem run_document (c : Content) :
    c.run add {} = { found := mavenRequirements c } := by
  rw [← List.nil_append (mavenRequirements c)]
  apply run_children
  · decide
  · intro name hname
    simp [OffWay, dependencyPath, List.suffix_cons_iff, hname]
  · rfl
  · intro name inside found
    rw [run_project]
    exact add_finish name (show ["project"] ≠ dependencyPath by decide)

end MavenProgress

/-- The requirements of a Maven project are those of its element tree. -/
theorem ofMavenProject_eq {text : String} {doc : Content} (h : Xml.events text = doc.events) :
    ofMavenProject text = mavenRequirements doc := by
  rw [ofMavenProject, h]
  exact congrArg MavenProgress.found (MavenProgress.run_document doc)

/-! ## NuGet references -/

/-- Whether an element refers to a package. -/
def isReference (name : String) : Bool :=
  (referenceKeys? (localName name)).isSome

/-- The reference with the version that its element holds as a child, if there is one. -/
def withChildVersion (inside : Content) (r : Requirement) : Requirement :=
  { r with version := (inside.field? "Version").or r.version }

theorem withChildVersion_closed (name : String) (attributes : List (String × String))
    (after : Content) :
    withChildVersion (.closed name attributes after) = withChildVersion after := by
  funext r
  rw [withChildVersion, Content.field?_closed, withChildVersion]

theorem withChildVersion_element (name : String) (attributes : List (String × String))
    (inside after : Content) (r : Requirement) :
    withChildVersion (.element name attributes inside after) r =
      withChildVersion after { r with
        version := (if localName name = "Version" then inside.text? else none).or r.version } := by
  rw [withChildVersion, Content.field?_element, Option.or_assoc, withChildVersion]

/-- The packages that the elements refer to, in document order. -/
def nugetRequirements : Content → List Requirement
  | .nil => []
  | .text _ after => nugetRequirements after
  | .closed name attributes after => (reference? name attributes).toList ++ nugetRequirements after
  | .element name attributes inside after =>
    (if isReference name then ((reference? name attributes).map (withChildVersion inside)).toList
      else nugetRequirements inside) ++ nugetRequirements after

/-- Whether contents hold no elements. -/
def isLeaf : Content → Bool
  | .nil => true
  | .text _ after => isLeaf after
  | .closed .. => false
  | .element .. => false

/-- Whether the elements of some contents are leaves, and none of them refers to a package. -/
def hasLeaves : Content → Bool
  | .nil => true
  | .text _ after => hasLeaves after
  | .closed name _ after => !isReference name && hasLeaves after
  | .element name _ inside after => !isReference name && isLeaf inside && hasLeaves after

/-- Whether the references hold no further ones, and leaves only. -/
def hasPlainReferences : Content → Bool
  | .nil => true
  | .text _ after => hasPlainReferences after
  | .closed _ _ after => hasPlainReferences after
  | .element name _ inside after =>
    (if isReference name then hasLeaves inside else hasPlainReferences inside)
      && hasPlainReferences after

theorem reference?_eq_none {name : String} (h : isReference name = false)
    (attributes : List (String × String)) : reference? name attributes = none := by
  -- without keys there is no attribute to read a name from
  have hkeys : referenceKeys? (localName name) = none := by
    rw [← Option.not_isSome_iff_eq_none]
    exact Bool.eq_false_iff.mp h
  rw [reference?, hkeys]
  rfl

namespace NugetProgress

variable {p : NugetProgress}

theorem add_text (content : String) (h : p.inVersion = false) : p.add (.text content) = p := by
  rw [add, h]
  rfl

/-- The text of leaves that are no version does not count. -/
theorem run_leaf {c : Content} (hleaf : isLeaf c = true) (h : p.inVersion = false) :
    c.run add p = p := by
  induction c with
  | nil => rfl
  | text content after ih =>
    rw [Content.run_text_of_passed fun content => add_text content h]
    exact ih hleaf
  | closed name attributes after ih => cases hleaf
  | element name attributes inside after ihInside ihAfter => cases hleaf

/-- In an element for a version its text is noted. -/
theorem run_version {c : Content} (hleaf : isLeaf c = true) (r : Requirement)
    (found : List Requirement) :
    c.run add { opened := some r, inVersion := true, found }
      = { opened := some { r with version := c.text?.or r.version }
          inVersion := true
          found } := by
  induction c generalizing r with
  | nil => rfl
  | text content after ih =>
    rw [Content.run_text, Content.text?_text]
    cases Xml.trimmed? content with
    | none =>
      rw [Option.map_none, Option.or_none]
      exact ih hleaf r
    | some content =>
      rw [Option.map_some, Option.or_assoc]
      -- the later text goes before the earlier one
      exact ih hleaf { r with version := some (Text.trim content) }
  | closed name attributes after ih => cases hleaf
  | element name attributes inside after ihInside ihAfter => cases hleaf

theorem add_finish {name : String} (h : isReference name = false) (hversion : p.inVersion = false) :
    p.add (.finish name) = p := by
  rw [isReference] at h
  rw [add, hversion, h]
  rfl

/-- A child of a reference leaves behind its text, if it is the version. -/
theorem run_child {name : String} {inside : Content} (hname : isReference name = false)
    (hleaf : isLeaf inside = true) (attributes : List (String × String)) (r : Requirement)
    (found : List Requirement) :
    (inside.run add (NugetProgress.add { opened := some r, found } (.start name attributes))).add
        (.finish name)
      = { opened := some { r with
            version := (if localName name = "Version" then inside.text? else none).or r.version }
          found } := by
  have hstart : NugetProgress.add { opened := some r, found } (.start name attributes)
      = { opened := some r, inVersion := localName name == "Version", found } := rfl
  rw [hstart]
  -- only inside `Version` is text noted, and its end tag leaves that state
  cases hversion : localName name == "Version" with
  | true =>
    rw [run_version hleaf, if_pos (beq_iff_eq.mp hversion)]
    rfl
  | false =>
    rw [run_leaf hleaf rfl, add_finish hname rfl, if_neg (beq_eq_false_iff_ne.mp hversion)]
    rfl

/-- In a reference the last version is noted, and everything else is passed over. -/
theorem run_reference {c : Content} (hleaves : hasLeaves c = true) (opened : Option Requirement)
    (found : List Requirement) :
    c.run add { opened, found } = { opened := opened.map (withChildVersion c), found } := by
  induction c generalizing opened with
  | nil =>
    cases opened with
    | none => rfl
    | some r => rfl
  | text content after ih =>
    rw [Content.run_text_of_passed fun content => add_text content rfl]
    exact ih hleaves opened
  | closed name attributes after ih =>
    rw [hasLeaves, Bool.and_eq_true, Bool.not_eq_true'] at hleaves
    -- an empty element that refers to nothing adds nothing
    have hadd : NugetProgress.add { opened, found } (.empty name attributes)
        = { opened, found } := by
      rw [add, reference?_eq_none hleaves.1]
      exact congrArg (NugetProgress.mk opened false) (List.append_nil found)
    rw [Content.run_closed, hadd, withChildVersion_closed]
    exact ih hleaves.2 opened
  | element name attributes inside after ihInside ihAfter =>
    rw [hasLeaves, Bool.and_eq_true, Bool.and_eq_true, Bool.not_eq_true'] at hleaves
    obtain ⟨⟨hname, hleaf⟩, hafter⟩ := hleaves
    rw [Content.run_element]
    cases opened with
    | none =>
      -- a reference without a name is not open, and its contents are not looked at
      have hstart : NugetProgress.add { found } (.start name attributes) = { found } := by
        rw [add, reference?_eq_none hname]
        rfl
      rw [hstart, run_leaf hleaf rfl, add_finish hname rfl]
      exact ihAfter hafter none
    | some r =>
      rw [run_child hname hleaf, Option.map_some, withChildVersion_element]
      exact ihAfter hafter _

/-- Outside references none is open, and each adds what it refers to. -/
theorem run_document {c : Content} (h : hasPlainReferences c = true) (found : List Requirement) :
    c.run add { found } = { found := found ++ nugetRequirements c } := by
  induction c generalizing found with
  | nil => exact congrArg (NugetProgress.mk none false) (List.append_nil found).symm
  | text content after ih =>
    rw [Content.run_text_of_passed fun content => add_text content rfl]
    exact ih h found
  | closed name attributes after ih =>
    rw [Content.run_closed, nugetRequirements, ← List.append_assoc]
    exact ih h _
  | element name attributes inside after ihInside ihAfter =>
    rw [hasPlainReferences, Bool.and_eq_true] at h
    obtain ⟨hinside, hafter⟩ := h
    have hstart : NugetProgress.add { found } (.start name attributes)
        = { opened := reference? name attributes, found } := rfl
    rw [Content.run_element, hstart, nugetRequirements, ← List.append_assoc]
    -- a reference is left open by its tag and listed at its end; nothing else is open in between
    cases hname : isReference name with
    | true =>
      rw [hname, if_pos rfl] at hinside
      have hfinish : ∀ opened : Option Requirement,
          NugetProgress.add { opened, found } (.finish name)
            = { found := found ++ opened.toList } := by
        intro opened
        rw [isReference] at hname
        rw [add, hname]
        rfl
      rw [run_reference hinside, hfinish, if_pos rfl]
      exact ihAfter hafter _
    | false =>
      rw [hname] at hinside
      rw [reference?_eq_none hname, ihInside hinside, add_finish hname rfl]
      exact ihAfter hafter _

end NugetProgress

/-- The requirements of a NuGet manifest are the references of its element tree. -/
theorem ofNugetReferences_eq {text : String} {doc : Content} (h : Xml.events text = doc.events)
    (hplain : hasPlainReferences doc = true) :
    ofNugetReferences text = nugetRequirements doc := by
  rw [ofNugetReferences, h]
  exact congrArg NugetProgress.found (NugetProgress.run_document hplain [])

end SourceAtlas.Manifest

/-! ## The inventory -/

namespace SourceAtlas.Inventory

open Manifest
open Xml (Content)

/-- What a manifest declares by a requirement, without a version that says nothing. -/
def declared (path ecosystem : String) (q : Requirement) : Dependency :=
  { name := q.name, version := q.withoutAnyVersion.version, ecosystem, file := path }

/--
**The dependencies of an XML manifest are what its element tree says.** A text with the events of a
tree, and every proper tree has one, declares as a Maven project the elements of the project's own
list that have a group and an artifact, and as a NuGet manifest the references that carry a name, in
document order and nothing else. Of repeated fields the last one with a text counts, and a version
given as a child goes before an attribute; no version counts if it is empty or stands for any.
-/
theorem dependenciesOf_elementTree (doc : Content) :
    (doc.isWellFormed = true → doc.startsWithText = false →
        Xml.events (String.ofList doc.write) = doc.events) ∧
      ∀ (r : Repository) (path text : String), r.read? path = some text →
        Xml.events text = doc.events →
          dependenciesOf r path .mavenProject
              = (mavenRequirements doc).map (declared path "maven") ∧
            (hasPlainReferences doc = true → ∀ kind ∈ [Kind.nugetPackages, .dotnetProject],
              dependenciesOf r path kind
                = (nugetRequirements doc).map (declared path "nuget")) := by
  refine ⟨Xml.events_write, fun r path text hread hevents => ⟨?_, fun hplain kind hkind => ?_⟩⟩
  · rw [dependenciesOf, hread]
    dsimp only
    rw [Kind.requirements, ofMavenProject_eq hevents]
    rfl
  -- both kinds of manifests are read by the same function
  · have hrequirements : kind.requirements text = nugetRequirements doc ∧
        kind.ecosystem = "nuget" := by
      rw [← ofNugetReferences_eq hevents hplain]
      rw [List.mem_pair] at hkind
      rcases hkind with rfl | rfl
      · exact ⟨rfl, rfl⟩
      · exact ⟨rfl, rfl⟩
    rw [dependenciesOf, hread]
    dsimp only
    rw [hrequirements.1, hrequirements.2]
    rfl

/-- A managed dependency, one without an artifact, and one with its fields in another order. -/
def sampleProject : Content :=
  .element "project" []
    (.element "dependencyManagement" []
      (.element "dependencies" []
        (.element "dependency" []
          (.element "groupId" [] (.text "m" .nil) (.element "artifactId" [] (.text "n" .nil) .nil))
          .nil)
        .nil)
      (.element "dependencies" []
        (.element "dependency" [] (.element "groupId" [] (.text "g" .nil) .nil)
          (.element "dependency" []
            (.element "artifactId" [] (.text "a" .nil)
              (.element "version" [] (.text " 1.0 " .nil)
                (.element "groupId" [] (.text "h" .nil) .nil)))
            .nil))
        .nil))
    .nil

/-- References with a version as an attribute, as a child, and as both. -/
def sampleReferences : Content :=
  .element "Project" []
    (.closed "PackageReference" [("Include", "A"), ("Version", "1")]
      (.element "PackageReference" [("Include", "B")]
        (.element "Version" [] (.text "2" .nil)
          (.element "PrivateAssets" [] (.text "all" .nil) .nil))
        (.element "PackageReference" [("Include", "C"), ("Version", "3")]
          (.element "Version" [] (.text "4" .nil) .nil) .nil)))
    .nil

theorem read?_ofSources_single {path : String} (h : RepoPath.normal path = path) (text : String) :
    (Repository.ofSources [(path, text)] []).read? path = some text := by
  rw [Repository.read?, Repository.ofSources]
  simp [Dict.find?_ofList, h]

theorem dependenciesOf_elementTree_sample :
    dependenciesOf (.ofSources [("pom.xml", String.ofList sampleProject.write)] []) "pom.xml"
        .mavenProject = [⟨"h:a", some "1.0", "maven", "pom.xml"⟩] ∧
      dependenciesOf (.ofSources [("A.csproj", String.ofList sampleReferences.write)] []) "A.csproj"
        .dotnetProject
      = [⟨"A", some "1", "nuget", "A.csproj"⟩, ⟨"B", some "2", "nuget", "A.csproj"⟩,
          ⟨"C", some "4", "nuget", "A.csproj"⟩] := by
  obtain ⟨hwritten, hproject⟩ := dependenciesOf_elementTree sampleProject
  obtain ⟨hwritten', hreferences⟩ := dependenciesOf_elementTree sampleReferences
  rw [(hproject _ "pom.xml" _ (read?_ofSources_single (by decide +kernel) _)
      (hwritten (by decide +kernel) rfl)).1,
    (hreferences _ "A.csproj" _ (read?_ofSources_single (by decide +kernel) _)
      (hwritten' (by decide +kernel) rfl)).2 (by decide +kernel) .dotnetProject (by decide)]
  constructor
  · decide +kernel
  · decide +kernel

/-- A dependency of any version, and one whose version is given again without a text. -/
def looseProject : Content :=
  .element "project" []
    (.element "dependencies" []
      (.element "dependency" []
        (.element "groupId" [] (.text "g" .nil)
          (.element "artifactId" [] (.text "a" .nil) (.element "version" [] (.text "*" .nil) .nil)))
        (.element "dependency" []
          (.element "groupId" [] (.text "g" .nil)
            (.element "artifactId" [] (.text "b" .nil)
              (.element "version" [] (.text "1.0" .nil) (.element "version" [] .nil .nil))))
          .nil))
      .nil)
    .nil

/-- Not every version that is written counts, nor is the last one always the one that does. -/
theorem dependenciesOf_looseProject :
    ((looseProject.children "project").flatMap fun project =>
        (project.children "dependencies").flatMap fun dependencies =>
          (dependencies.children "dependency").map fun dependency =>
            (dependency.children "version").map Content.text?)
        = [[some "*"], [some "1.0", none]] ∧
      dependenciesOf (.ofSources [("pom.xml", String.ofList looseProject.write)] []) "pom.xml"
        .mavenProject
      = [⟨"g:a", none, "maven", "pom.xml"⟩, ⟨"g:b", some "1.0", "maven", "pom.xml"⟩] := by
  have hevents := Xml.events_write (show looseProject.isWellFormed = true by decide +kernel) rfl
  rw [dependenciesOf, read?_ofSources_single (by decide +kernel)]
  dsimp only
  rw [Kind.requirements, ofMavenProject_eq hevents]
  constructor
  · decide +kernel
  · decide +kernel

end SourceAtlas.Inventory
