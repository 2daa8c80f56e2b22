import SourceAtlas.Xml.Event

/-!
# Element trees

What stands inside an element: text and elements one after the other, where an element has contents
of its own or is closed in its own tag. A document is such contents with one element.

The events of a tree come in document order (`Content.events`), and a reader that takes in one event
at a time goes through a tree as the equations of `Content.run` say.
-/

namespace SourceAtlas.Xml

/-- The contents of an element. -/
inductive Content where
  | nil
  | text (run : String) (after : Content)
  /-- An element that is closed in its own tag. -/
  | closed (name : String) (attributes : List (String × String)) (after : Content)
  | element (name : String) (attributes : List (String × String)) (inside after : Content)
  deriving DecidableEq, Repr

/-- A run of text without blanks around it, if there is anything else in it. -/
def trimmed? (run : String) : Option String :=
  let cs := Chars.trimWhile isBlank run.toList
  if cs.isEmpty then none else some (String.ofList cs)

namespace Content

def events : Content → List Event
  | nil => []
  | text run after => (trimmed? run).toList.map .text ++ after.events
  | closed name attributes after => .empty name attributes :: after.events
  | element name attributes inside after =>
    .start name attributes :: (inside.events ++ .finish name :: after.events)

/-- The contents of the child elements with a local name. -/
def children (key : String) : Content → List Content
  | nil => []
  | text _ after => after.children key
  | closed name _ after =>
    (if localName name = key then [nil] else []) ++ after.children key
  | element name _ inside after =>
    (if localName name = key then [inside] else []) ++ after.children key

/-- The runs of text that stand in the contents themselves and are not blank. -/
def runs : Content → List String
  | nil => []
  | text run after => (trimmed? run).toList ++ after.runs
  | closed _ _ after => after.runs
  | element _ _ _ after => after.runs

/-- The text of an element: its only run, or the last one. -/
def text? (c : Content) : Option String :=
  c.runs.getLast?.map Text.trim

/-- The text of the last child with a local name that has any. -/
def field? (key : String) (c : Content) : Option String :=
  ((c.children key).filterMap text?).getLast?

/-! ### Reading events one by one -/

section

variable {σ : Type} (step : σ → Event → σ) (s : σ)

/-- Takes in the events of a tree. -/
def run (c : Content) : σ :=
  c.events.foldl step s

@[simp] theorem run_text (content : String) (after : Content) :
    (text content after).run step s
      = after.run step ((trimmed? content).elim s fun content => step s (.text content)) := by
  rw [run, events, List.foldl_append]
  cases trimmed? content with
  | none => rfl
  | some content => rfl

variable {step s} in
/-- Text that a reader passes over leaves it as it was. -/
theorem run_text_of_passed (h : ∀ content, step s (.text content) = s) (content : String)
    (after : Content) : (text content after).run step s = after.run step s := by
  rw [run_text]
  cases trimmed? content with
  | none => rfl
  | some content => exact congrArg (after.run step) (h content)

@[simp] theorem run_closed (name : String) (attributes : List (String × String)) (after : Content) :
    (closed name attributes after).run step s = after.run step (step s (.empty name attributes)) :=
  rfl

@[simp] theorem run_element (name : String) (attributes : List (String × String))
    (inside after : Content) :
    (element name attributes inside after).run step s
      = after.run step
        (step (inside.run step (step s (.start name attributes))) (.finish name)) := by
  rw [run, events, List.foldl_cons, List.foldl_append]
  rfl

end

/-! ### Fields -/

section

variable (key : String) (after : Content)

/-- A later run hides the ones before it. -/
@[simp] theorem text?_text (content : String) :
    (text content after).text? = after.text?.or ((trimmed? content).map Text.trim) := by
  rw [text?, runs, List.getLast?_append, text?]
  -- the last run is in what follows, if there is one
  cases after.runs.getLast? with
  | none =>
    cases trimmed? content with
    | none => rfl
    | some run => rfl
  | some last => rfl

@[simp] theorem field?_closed (name : String) (attributes : List (String × String)) :
    (closed name attributes after).field? key = after.field? key := by
  rw [field?, children]
  -- an element without contents has no text
  split
  · rfl
  · rfl

/-- A later child with a text hides the ones before it. -/
@[simp] theorem field?_element (name : String) (attributes : List (String × String))
    (inside : Content) :
    (element name attributes inside after).field? key
      = (after.field? key).or (if localName name = key then inside.text? else none) := by
  rw [field?, children, List.filterMap_append, List.getLast?_append, ← field?]
  congr 1
  split
  · rw [List.filterMap_cons, List.filterMap_nil]
    cases inside.text? with
    | none => rfl
    | some value => rfl
  · rfl

end

end Content

end SourceAtlas.Xml
