import Hydration.Component
import Hydration.Data.Basic

/-!
# Reports

A report says what has become of the deferred elements of a scenario and of its page.  Elements
are called by their keys.  `Report.data` is the report as data, with the fields in the order
in which they are shown.
-/

namespace Hydration

/-- What has become of a deferred element. -/
structure ComponentReport where
  /-- The key of the element. -/
  key : String
  id : Option String
  name : Option String
  state : Option ActivationState
  /-- How the activation has ended, unless it has failed or still waits. -/
  outcome : Option Outcome
  /-- The text of the error that the activation has failed with. -/
  error : Option String
  inert : Bool
deriving DecidableEq, Repr, Inhabited

/-- What has become of a page. -/
structure Report where
  name : String
  /-- The deferred elements in document order. -/
  components : List ComponentReport
  /-- The keys of the initialized elements in document order. -/
  initialized : List String
  /-- What has been done to the tree. -/
  journal : List String
  /-- The data bound last under each name, sorted by name. -/
  bindings : List (String × Data)
  /-- The URLs that have been fetched. -/
  fetched : List String
deriving Repr, Inhabited

/-- A text that may be missing, as data. -/
def Data.ofText? : Option String → Data
  | some s => string s
  | none => null

/-- Texts as data. -/
def Data.ofTexts (texts : List String) : Data :=
  list (texts.map string)

/-- The report on an element as data. -/
def ComponentReport.data (r : ComponentReport) : Data :=
  .record [("element", .string r.key), ("id", .ofText? r.id), ("name", .ofText? r.name),
    ("state", .ofText? (r.state.map (·.text))), ("outcome", .ofText? (r.outcome.map (·.text))),
    ("error", .ofText? r.error), ("inert", .bool r.inert)]

namespace Report

variable (r : Report)

/-- The report on the element with a key. -/
def component? (key : String) : Option ComponentReport :=
  r.components.find? (·.key == key)

/-- The fields of the report, in the order in which they are shown. -/
def fields : List (String × Data) :=
  [("name", .string r.name), ("components", .list (r.components.map (·.data))),
    ("initialized", .ofTexts r.initialized), ("journal", .ofTexts r.journal),
    ("bindings", .record r.bindings), ("fetched", .ofTexts r.fetched)]

/-- The report as data. -/
def data : Data := .record r.fields

end Report

end Hydration
