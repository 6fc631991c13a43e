import Hydration.Strategy.Basic

/-!
# Components

A deferred element becomes a component when it is discovered.  Its record says how
far it has come: **discovered**, **awaiting** its requirement and its module, or
**activated**.  The id, the name and the requirement are filled in when activation
begins.

The name is read off the element's data expression: what stands before the first
`(` or `{`, without blanks at its ends.
-/

namespace Hydration

/-- How far a component has come. -/
inductive ActivationState where
  | discovered
  | awaitingRequirements
  | activated
deriving DecidableEq, Repr, Inhabited

namespace ActivationState

/-- The text shown for a state. -/
def text : ActivationState → String
  | discovered => "discovered"
  | awaitingRequirements => "awaiting_requirements"
  | activated => "activated"

/-- The place of a state in the life of a component. -/
def rank : ActivationState → Nat
  | discovered => 0
  | awaitingRequirements => 1
  | activated => 2

/-- Whether one state comes before another. -/
def precedes (a b : ActivationState) : Bool :=
  a.rank < b.rank

end ActivationState

/-- What is known of a component. -/
structure Component where
  element : ElementRef
  state : ActivationState := .discovered
  id : Option String := none
  name : Option String := none
  requirement : Option String := none
deriving DecidableEq, Repr, Inhabited

/-- How the component is known to strategies, once it has an id. -/
def Component.handle? (c : Component) : Option ComponentHandle :=
  c.id.map fun id => ⟨c.element, id⟩

/-- How an activation that did not fail has ended. -/
inductive Outcome where
  /-- The element has been initialized. -/
  | activated
  /-- An inert ancestor will initialize the element later. -/
  | nested
  /-- There was nothing to activate. -/
  | skipped
deriving DecidableEq, Repr, Inhabited

/-- The text shown for an outcome. -/
def Outcome.text : Outcome → String
  | activated => "activated"
  | nested => "nested"
  | skipped => "skipped"

/-- The name in a data expression, which may be empty. -/
def componentName (expression : String) : String :=
  Text.trim (String.ofList (expression.toList.takeWhile fun c => c ≠ '(' ∧ c ≠ '\x7b'))

end Hydration
