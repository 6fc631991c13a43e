/-!
# Page events

A page event has a name, and a **load event** also carries the id of the component
it is meant for.  A plain event that happens to have the name of load events is
none: it carries no id.
-/

namespace Hydration

/-- An event of the page. -/
structure Event where
  name : String
  /-- The component id of a load event. -/
  id : Option String
deriving DecidableEq, Repr, Inhabited

namespace Event

/-- The name of load events. -/
def loadName : String := "defer:load"

/-- A plain event. -/
def named (name : String) : Event := ⟨name, none⟩

/-- The load event for the component `id`. -/
def load (id : String) : Event := ⟨loadName, some id⟩

/-- Whether `e` is the load event for the component `id`. -/
def isLoadFor (e : Event) (id : String) : Bool :=
  e.name == loadName && e.id == some id

/-- What a waiter looks for: events of a name, load events for an id, or both. -/
structure Filter where
  name : Option String
  loadFor : Option String
deriving DecidableEq, Repr, Inhabited

/-- Looks for the events called `name`. -/
def Filter.named (name : String) : Filter := ⟨some name, none⟩

/-- Looks for the load event for `id`. -/
def Filter.load (id : String) : Filter := ⟨none, some id⟩

/-- Whether the filter accepts the event. -/
def Filter.accepts (f : Filter) (e : Event) : Bool :=
  f.name.all (e.name == ·) && f.loadFor.all (e.isLoadFor ·)

end Event

end Hydration
