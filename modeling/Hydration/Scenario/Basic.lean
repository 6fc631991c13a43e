import Hydration.Module.Basic
import Hydration.Options.Basic
import Hydration.Platform

/-!
# Scenarios

A scenario describes a page and what happens to it: its elements, its modules and where
they are served, the platform at the beginning, and a timeline of steps.  Elements are called
by their keys.

An element is **deferred** when it has a requirement, even an empty one.
-/

namespace Hydration

/-- The platform at the beginning of a scenario. -/
structure PlatformSetup where
  /-- Whether idle periods are reported. -/
  idleCallback : Bool := true
  /-- The media queries that match. -/
  media : List String := []
  /-- The keys of the elements in the viewport. -/
  visible : List String := []
deriving DecidableEq, Repr, Inhabited

/-- An element of a scenario. -/
structure ElementSpec where
  key : String
  /-- The key of an element that stands before it. -/
  parent : Option String := none
  id : Option String := none
  /-- The data expression, which names the component. -/
  data : Option String := none
  /-- The requirement. -/
  load : Option String := none
  /-- The URL of the module. -/
  src : Option String := none
deriving DecidableEq, Repr, Inhabited

/-- A step of a timeline. -/
inductive ScenarioStep where
  | wait (duration : Nat)
  | visible (key : String)
  | hidden (key : String)
  | media (query : String) (on : Bool)
  /-- An idle period, or nothing. -/
  | idle (happens : Bool)
  | event (name : String)
  /-- The load event for an id. -/
  | load (id : String)
deriving DecidableEq, Repr, Inhabited

/-- A page and what happens to it. -/
structure Scenario where
  name : String := ""
  options : Options := {}
  platform : PlatformSetup := {}
  /-- The modules that are registered directly, by name. -/
  modules : List (String × ComponentModule) := []
  /-- The module URLs that are registered, by name. -/
  urls : List (String × String) := []
  /-- What is served, by URL. -/
  served : List (String × ComponentModule) := []
  /-- The URL pattern for names that are not registered. -/
  pattern : Option String := none
  elements : List ElementSpec
  timeline : List ScenarioStep := []
  /-- How many milliseconds pass behind the last step. -/
  settleTime : Nat := 250
deriving Repr, Inhabited

namespace Scenario

variable (s : Scenario)

/-- The number of the element with a key. -/
def element? (key : String) : Option ElementRef :=
  (s.elements.findIdx? (·.key == key)).map ElementRef.mk

/-- The key of an element. -/
def keyOf (el : ElementRef) : String :=
  match s.elements[el.index]? with
  | some e => e.key
  | none => el.text

/-- The deferred elements in document order. -/
def deferred : List ElementRef :=
  (s.elements.zipIdx.filter (·.1.load.isSome)).map fun (_, i) => ⟨i⟩

end Scenario

end Hydration
