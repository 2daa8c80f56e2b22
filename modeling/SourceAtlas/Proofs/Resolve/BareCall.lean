import SourceAtlas.Proofs.Index.History
import SourceAtlas.Proofs.Resolve.CallTargets
import SourceAtlas.Proofs.Resolve.Hierarchy

/-!
# Bare calls in Go files

A Go file sees the functions of its own package, which is its directory, and those of the packages
that it imports with a dot. A bare call that no such import answers goes to the last step of the
resolution, and that step looks in three places:

* the free functions of the name, and after them the types of the name; both are filtered by the
  directory of the caller (`inPackage_of_nearest?`);
* before either of them, the methods of the type that the caller is a method of. This place is not
  filtered. The type itself is looked up by its simple name, a type of another directory counts as a
  part of it if their packages have the same name, and embedded types may lie anywhere.

So a bare call stays in its package exactly if the hierarchy of the enclosing type does
(`bareCall_inPackage_iff`), and it can leave it (`bareCall_leaves_twoCommands`).
-/

namespace SourceAtlas.Resolve

variable {ix : Index} {scope : Scope} {call : CallSite}

/-- A call of a bare name in a Go file whose imports bind packages only, where no package imported
with a dot declares a function of the name. -/
structure BareGoCall (ix : Index) (scope : Scope) (call : CallSite) : Prop where
  language : ix.language = .go
  receiver : call.receiver = none
  notStatic : ∀ i ∈ scope.imports, i.isStatic = false
  packagesOnly : ∀ i ∈ scope.imports, ∀ b ∈ i.bindings, b.symbol = none
  notDotImported : ∀ i ∈ scope.imports, i.kind = .inRepository → i.wildcard = true →
    ∀ target ∈ i.targets, ∀ site ∈ ix.methodSites call.name,
      site.className = none → site.path ≠ target

/-- Whether a file lies in the directory of a scope. -/
def Scope.InPackage (scope : Scope) (path : String) : Prop :=
  RepoPath.parentDir path = RepoPath.parentDir scope.path

instance (scope : Scope) (path : String) : Decidable (scope.InPackage path) :=
  inferInstanceAs (Decidable (_ = _))

namespace BareGoCall

/-! ## The imports have nothing to say -/

theorem symbolBinding?_eq_none (h : BareGoCall ix scope call) :
    symbolBinding? ix scope.imports call.name = none := by
  unfold symbolBinding?
  rw [List.findSome?_eq_none_iff]
  intro i hi
  -- a package is bound without a symbol, and only symbols are asked for
  have hnone : i.bindings.find? (fun b => b.symbol.isSome && ix.sameName b.localName call.name) =
      none := by
    rw [List.find?_eq_none]
    intro b hb
    simp [h.packagesOnly i hi b hb]
  rw [hnone]
  rfl

theorem throughUnnamed?_eq_none (h : BareGoCall ix scope call) {i : Import} (hi : i ∈ scope.imports)
    (hkind : i.kind = .inRepository) : throughUnnamed? ix call.name i = none := by
  unfold throughUnnamed?
  rw [h.notStatic i hi, if_neg Bool.false_ne_true]
  split
  next hwild =>
    -- a dot import would answer with a free function of the name in one of its files
    have hwildcard : i.wildcard = true := (Bool.and_eq_true_iff.mp hwild).1
    unfold freeFunctionIn?
    rw [List.find?_eq_none]
    intro target htarget hany
    obtain ⟨site, hsite, hfree⟩ := List.any_eq_true.mp hany
    rw [Bool.and_eq_true, beq_iff_eq, Option.isNone_iff_eq_none] at hfree
    exact h.notDotImported i hi hkind hwildcard target htarget site hsite hfree.1 hfree.2
  next => rfl

theorem importedName_eq_undecided (h : BareGoCall ix scope call) :
    importedName ix scope call.name = .undecided := by
  -- imports from outside are not asked
  have hnone : (scope.imports.filter (·.kind == .inRepository)).findSome?
      (throughUnnamed? ix call.name) = none := by
    rw [List.findSome?_eq_none_iff]
    intro i hi
    rw [List.mem_filter, beq_iff_eq] at hi
    exact h.throughUnnamed?_eq_none hi.1 hi.2
  unfold importedName
  rw [h.symbolBinding?_eq_none]
  dsimp only
  rw [hnone]
  rfl

/-- Without a receiver and without an import, only the last step is left. -/
theorem resolveCall_eq_unscoped? (h : BareGoCall ix scope call) :
    resolveCall ix scope call = unscoped? ix scope call := by
  unfold resolveCall qualified byReceiverType byReceiverClass
  rw [h.receiver]
  dsimp only
  rw [h.importedName_eq_undecided]

/-! ## The last step -/

/-- The nearest of the files that a Go file sees is in its package. -/
theorem inPackage_of_nearest? (hgo : ix.language = .go) {paths : List String} {p : String}
    (hp : nearest? ix scope (paths.filter (visibleFrom ix scope)) = some p) :
    scope.InPackage p := by
  -- the nearest file is one of the visible ones, and in Go those are of the directory
  have hvisible := (List.mem_filter.mp (mem_of_firstLeast? hp)).2
  unfold visibleFrom at hvisible
  rw [hgo] at hvisible
  show RepoPath.parentDir p = RepoPath.parentDir scope.path
  simpa using hvisible

/-- A bare call is answered by the hierarchy of the enclosing type, or else in the package. -/
theorem resolveCall_cases (h : BareGoCall ix scope call) {p : String}
    (hp : resolveCall ix scope call = some p) :
    (∃ own, ownClass? ix scope = some own ∧ methodInChain? ix own call.name = some p)
      ∨ scope.InPackage p := by
  rw [h.resolveCall_eq_unscoped?] at hp
  unfold unscoped? at hp
  rw [h.receiver] at hp
  simp only [Option.isSome_none, Bool.false_eq_true, if_false] at hp
  -- in this order: the enclosing type, the free functions, the types
  rcases Option.or_eq_some_iff.mp hp with hp | ⟨-, hclass⟩
  · rcases Option.or_eq_some_iff.mp hp with hinherited | ⟨-, hfree⟩
    · exact Or.inl (Option.bind_eq_some_iff.mp hinherited)
    · exact Or.inr (inPackage_of_nearest? h.language hfree)
  · exact Or.inr (inPackage_of_nearest? h.language hclass)

/-- The hierarchy of the enclosing type comes first. -/
theorem resolveCall_of_methodInChain? (h : BareGoCall ix scope call) {own : ClassEntry} {p : String}
    (hown : ownClass? ix scope = some own) (hp : methodInChain? ix own call.name = some p) :
    resolveCall ix scope call = some p := by
  rw [h.resolveCall_eq_unscoped?]
  unfold unscoped?
  rw [h.receiver]
  simp only [Option.isSome_none, Bool.false_eq_true, if_false, hown, Option.bind_some, hp,
    Option.some_or]

end BareGoCall

/-! ## Where a bare call can lead -/

/--
**A bare call stays in its package exactly if the hierarchy of the enclosing type does.** Whatever
files are registered, a bare call in a Go file that no dot import answers is resolved inside the
directory of the caller or not at all, if and only if the method of that name that the enclosing
type has or inherits, should there be one, is found there too. A call that leaves the directory
leads to a file that declares a method of the name for the enclosing type or a type above it.
-/
theorem bareCall_inPackage_iff (h : BareGoCall ix scope call) :
    ((∀ p, resolveCall ix scope call = some p → scope.InPackage p) ↔
      ∀ own p, ownClass? ix scope = some own → methodInChain? ix own call.name = some p →
        scope.InPackage p)
      ∧ ∀ p, resolveCall ix scope call = some p → ¬ scope.InPackage p →
        ∃ own d, ownClass? ix scope = some own ∧ Inherits ix own d
          ∧ DeclaresAt ix d call.name p := by
  refine ⟨⟨?_, ?_⟩, ?_⟩
  -- the hierarchy answers first, so its answer is the call's
  · intro hstays own p hown hp
    exact hstays p (h.resolveCall_of_methodInChain? hown hp)
  · intro hchain p hp
    rcases h.resolveCall_cases hp with ⟨own, hown, hmethod⟩ | hin
    · exact hchain own p hown hmethod
    · exact hin
  · intro p hp hout
    rcases h.resolveCall_cases hp with ⟨own, hown, hmethod⟩ | hin
    · obtain ⟨d, hinherits, hdeclares⟩ := exists_declaresAt_of_methodInChain? hmethod
      exact ⟨own, d, hown, hinherits, hdeclares⟩
    · exact absurd hin hout

/-!
## Two commands

The programs of one repository are packages of the same name, `main`, in directories of their own.
Here both have a type `Server`. The `Start` of the first one calls the function `run` of its
package; the second one has a method `run`.
-/

def server (methods : List String) : ClassDecl :=
  { name := "Server", qualifiedName := "main.Server", kind := .struct, visibility := .pub, methods }

def twoCommands : Index :=
  .ofEntries .go (.ofSources [] [])
    [.declared
      { path := "cmd/a/main.go"
        namespaceName := some "main"
        classes := [server ["Start"]]
        functions :=
          [{ name := "Start", kind := .method, visibility := .pub, className := some "Server"
             calls := [{ name := "run" }] },
           { name := "run", kind := .free, visibility := .priv }] },
     .declared
      { path := "cmd/b/main.go"
        namespaceName := some "main"
        classes := [server ["run"]]
        functions :=
          [{ name := "run", kind := .method, visibility := .priv, className := some "Server" }] }]

/-- The scope of a method of `Server` in the directory of a command. -/
def serverScope (dir : String) (imports : List Import) : Scope :=
  { path := dir ++ "/main.go", namespaceName := some dir, className := some "Server", imports }

/-- In the second command a bare `run` is the method of its own `Server`, and it stays. -/
theorem bareCall_inPackage_twoCommands :
    let imports : List Import :=
      [{ source := "fmt", kind := .external, bindings := [⟨"fmt", none⟩] },
       { source := "util", kind := .inRepository, wildcard := true, targets := ["util/util.go"] }]
    let scope := serverScope "cmd/b" imports
    let call : CallSite := { name := "run" }
    BareGoCall twoCommands scope call
      ∧ resolveCall twoCommands scope call = some "cmd/b/main.go"
      ∧ ∀ p, resolveCall twoCommands scope call = some p → scope.InPackage p := by
  intro imports scope call
  have hbare : BareGoCall twoCommands scope call :=
    { language := by decide +kernel
      receiver := rfl
      notStatic := by decide +kernel
      packagesOnly := by decide +kernel
      notDotImported := by decide +kernel }
  have hown : ownClass? twoCommands scope = some (.ofDecl "cmd/b/main.go" (server ["run"])) := by
    decide +kernel
  have hmethod : methodInChain? twoCommands (.ofDecl "cmd/b/main.go" (server ["run"])) "run" =
      some "cmd/b/main.go" := by
    rw [methodInChain?_of_parentsOf_eq_nil (by decide +kernel) (by decide +kernel)]
    decide +kernel
  refine ⟨hbare, hbare.resolveCall_of_methodInChain? hown hmethod, ?_⟩
  -- so it is enough that the enclosing type stays
  rw [(bareCall_inPackage_iff hbare).1]
  intro own p hown' hp
  rw [hown] at hown'
  cases hown'
  rw [hmethod] at hp
  cases hp
  decide +kernel

/--
**A bare call can leave its package.** In the first command `run` is a function of the package, but
the `Server` of the second command counts as a part of its own `Server`, and its method comes first.
-/
theorem bareCall_leaves_twoCommands :
    let scope := serverScope "cmd/a" []
    let call : CallSite := { name := "run" }
    BareGoCall twoCommands scope call
      ∧ (∃ site ∈ twoCommands.methodSites "run", site.className = none ∧ scope.InPackage site.path)
      ∧ resolveCall twoCommands scope call = some "cmd/b/main.go"
      ∧ ¬ scope.InPackage "cmd/b/main.go" := by
  intro scope call
  have hbare : BareGoCall twoCommands scope call :=
    { language := by decide +kernel
      receiver := rfl
      notStatic := by decide +kernel
      packagesOnly := by decide +kernel
      notDotImported := by decide +kernel }
  have hown : ownClass? twoCommands scope = some (.ofDecl "cmd/a/main.go" (server ["Start"])) := by
    decide +kernel
  -- the parts of the type span both directories, and only the other one lists `run`
  have hmethod : methodInChain? twoCommands (.ofDecl "cmd/a/main.go" (server ["Start"])) "run" =
      some "cmd/b/main.go" := by
    rw [methodInChain?_of_parentsOf_eq_nil (by decide +kernel) (by decide +kernel)]
    decide +kernel
  exact ⟨hbare, by decide +kernel, hbare.resolveCall_of_methodInChain? hown hmethod,
    by decide +kernel⟩

end SourceAtlas.Resolve
