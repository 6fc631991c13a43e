import Hydration.Component
import Hydration.Document
import Hydration.Failure
import Hydration.Module.Table
import Hydration.Strategy.Table

/-!
# Pages

A `Page` is everything that activation works on: the document, the options, the
strategies and modules, the records of the components, and the surroundings that
strategies see.  It also holds the **tasks**, each of which activates one element.

**Discovering** an element makes its record and marks it inert, once, and never
while the framework is cloning.  A discovered element is **claimed** by the first
activation that reaches it; from then on its record is no longer `discovered`, so
no other activation can claim it.

One counter gives the numbers for made-up names and for made-up ids.
-/

namespace Hydration

/-- A download that has been begun. -/
inductive Download where
  /-- The answer arrives at a time, if ever; the ticket is that of its timer. -/
  | arriving (ticket : Nat) (due : Option Nat) (answer : Except ModuleError ComponentModule)
  | settled (result : Except ModuleError Bool)

/-- What a download waits for. -/
def Download.waits : Download → List Wait
  | arriving ticket (some due) _ => [.timer ticket due (.ok ())]
  | arriving _ none _ => [.never]
  | settled _ => []

/-- How far a task has come. -/
inductive TaskStatus where
  /-- It has not run; it may have to discover its element first. -/
  | fresh (discovers : Bool)
  /-- It waits for a requirement and for the module called `name`. -/
  | awaiting (component : ComponentHandle) (name : String) (requirement : Evaluation NamedWait)
      (download : Download)
  | ended (result : Except Failure Outcome)
  /-- It has been given up. -/
  | dropped

/-- The activation of an element. -/
structure Task where
  element : ElementRef
  status : TaskStatus
  /-- Whether it is to be given up when its turn comes. -/
  cancelled : Bool := false
  /-- Whether its result is not to be reported any more. -/
  reported : Bool := false

/-- What a task waits for. -/
def Task.waits (t : Task) : List Wait :=
  match t.status with
  | .awaiting _ _ requirement download => requirement.waits.map (·.wait) ++ download.waits
  | _ => []

/-- A page with deferred elements. -/
structure Page where
  options : Options := {}
  strategies : StrategyTable := .builtIn
  modules : ModuleTable
  document : Document := {}
  surroundings : Surroundings := {}
  /-- The records of the components in the order of their elements. -/
  components : List Component := []
  /-- The next number for a made-up name or id. -/
  counter : Nat := 0
  tasks : List Task := []
  /-- The tasks whose turn is to come, by number. -/
  queue : List Nat := []

namespace Page

variable (p : Page)

/-! ## Components -/

/-- The record of an element. -/
def component? (el : ElementRef) : Option Component :=
  p.components.find? (·.element == el)

/-- The state of an element. -/
def state? (el : ElementRef) : Option ActivationState :=
  (p.component? el).map (·.state)

/-- Puts a new record in its place among the others. -/
def insertComponent (c : Component) : List Component → List Component
  | [] => [c]
  | d :: rest =>
    if c.element.index < d.element.index then c :: d :: rest else d :: insertComponent c rest

/-- Changes the record of an element. -/
def modifyComponent (el : ElementRef) (f : Component → Component) : Page :=
  { p with components := p.components.map fun c => if c.element = el then f c else c }

/-- Makes the record of an element and marks the element inert.  Nothing happens
while the framework is cloning or when there is a record already. -/
def discover (el : ElementRef) : Bool × Page :=
  if p.document.cloning ∨ (p.component? el).isSome then (false, p)
  else
    (true, { p with
      components := insertComponent { element := el } p.components
      document := p.document.markInert el })

/-- Claims a discovered element for one activation. -/
def claim? (el : ElementRef) : Option Page :=
  if p.document.cloning ∨ p.state? el ≠ some .discovered then none
  else some (p.modifyComponent el fun c => { c with state := .awaitingRequirements })

/-- The next number of the counter. -/
def nextNumber : Nat × Page :=
  (p.counter, { p with counter := p.counter + 1 })

/-- The name of an element's component, made up if it has none. -/
def nameFor (el : ElementRef) : String × Page :=
  let expression := (p.document.attribute? el (p.options.attributeName "data")).getD ""
  let name := componentName expression
  if name.isEmpty then
    let (number, p) := p.nextNumber
    (s!"{anonymousStem}{number}", p)
  else (name, p)

/-- The id of an element's component, made up if the author gave none. -/
def idFor (el : ElementRef) : String × Page :=
  match p.document.elementId? el with
  | some id => (id, p)
  | none =>
    let (number, p) := p.nextNumber
    (toString number, p)

/-- The requirement of an element; a blank one is none. -/
def requirementFor (el : ElementRef) : String :=
  ((p.document.attribute? el (p.options.attributeName "load")).filter
    (!Text.isBlankText ·)).getD p.options.defaultStrategy

/-- Registers the module URL that an element declares. -/
def registerSource (el : ElementRef) (name : String) : Except ModuleError Page :=
  match p.document.attribute? el (p.options.attributeName "load-src") with
  | none => .ok p
  | some url => do
    let (_, modules) ← p.modules.registerUrl name url p.options
    return { p with modules }

end Page

end Hydration
