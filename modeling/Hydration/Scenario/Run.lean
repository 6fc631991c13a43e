import Hydration.Page.Command
import Hydration.Scenario.Basic
import Hydration.Scenario.Report

/-!
# Running a scenario

`Scenario.run` sets up the page of a scenario, lets its timeline pass, and reports.

**Setting up.**  The elements are added in their order, so an element comes behind its
parent.  The deferred ones are discovered before the framework initializes the roots, and then
there is one task for each.

**Passing.**  Before each step there is a gap of `stepGap` milliseconds, in which tasks run up to
where they wait.  A step that names an element which does not exist ends the run.  At the
end there is one more wait; what comes due exactly when it ends is not seen any more.
-/

namespace Hydration.Scenario

variable (s : Scenario)

/-- The milliseconds before each step. -/
def stepGap : Nat := 5

/-- The number of the element with a key, which has to exist. -/
def element (key : String) : Except ConfigError ElementRef :=
  match s.element? key with
  | some el => .ok el
  | none => .error (.unknownElement key)

/-! ## Setting up -/

/-- The attributes of an element. -/
def attributesOf (e : ElementSpec) : List (String × String) :=
  [("id", e.id), (s.options.attributeName "data", e.data), (s.options.attributeName "load", e.load),
    (s.options.attributeName "load-src", e.src)].filterMap fun (name, value) =>
      value.map fun value => (name, value)

/-- Adds an element behind those with the given keys. -/
def addElement (keys : List String) (d : Document) (e : ElementSpec) :
    Except ConfigError Document := do
  if e.key ∈ keys then throw (.duplicateKey e.key)
  let parent ← match e.parent with
    | none => pure none
    | some parent =>
      match keys.findIdx? (· == parent) with
      | some index => pure (some ⟨index⟩)
      | none => throw (.unknownParent e.key parent)
  return (d.add parent (s.attributesOf e)).2

/-- The document with all elements. -/
def document : Except ConfigError Document :=
  (s.elements.zipIdx).foldlM (fun d (e, i) => s.addElement ((s.elements.take i).map (·.key)) d e) {}

/-- The platform at the beginning. -/
def startingPlatform : Except ConfigError Platform := do
  let visible ← s.platform.visible.mapM s.element
  let platform : Platform := { idleCallback := s.platform.idleCallback }
  let platform := s.platform.media.foldl (fun p query => p.setMedia query true) platform
  return visible.foldl (fun p el => p.setVisible el true) platform

/-- The modules with what is registered. -/
def moduleTable (join : Url.Joiner) : Except ModuleError ModuleTable := do
  let table : ModuleTable := {
    join
    fallback := s.pattern.map .pattern
    served := some (s.served.map fun (url, m) => (url, .holding m)) }
  let table := s.modules.foldl (fun t (name, m) => t.register name (.holding m)) table
  s.urls.foldlM (fun t (name, url) => do return (← t.registerUrl name url s.options).2) table

/-- The page before anything is discovered. -/
def page (join : Url.Joiner) : Except Failure Page := do
  let document ← s.document.mapError Failure.config
  let platform ← s.startingPlatform.mapError Failure.config
  let modules ← (s.moduleTable join).mapError Failure.module
  return { options := s.options, modules, document, surroundings := { platform } }

/-- Discovers the deferred elements, initializes the roots, and starts the tasks. -/
def start (p : Page) : Page :=
  let p := s.deferred.foldl (fun p el => (p.discover el).2) p
  let p := p.onDocument fun d => d.roots.foldl Document.initTree d
  s.deferred.foldl (fun p el => (p.startTask el true).2) p

/-! ## Passing -/

/-- Carries out a step. -/
def apply (p : Page) : ScenarioStep → Except ConfigError Page
  | .wait duration => .ok (p.advance duration)
  | .visible key => do return p.setVisible (← s.element key) true
  | .hidden key => do return p.setVisible (← s.element key) false
  | .media query on => .ok (p.setMedia query on)
  | .idle happens => .ok (if happens then p.triggerIdle else p)
  | .event name => .ok (p.publish (.named name)).2
  | .load id => .ok (p.publish (.load id)).2

/-- Lets the timeline and the wait behind it pass. -/
def play (p : Page) : Except ConfigError Page := do
  let p ← s.timeline.foldlM (fun p step => s.apply (p.advance stepGap) step) p
  return p.advance s.settleTime

/-! ## Reporting -/

/-- The report on a deferred element whose task has the given status. -/
def reportOn (p : Page) (el : ElementRef) (status : TaskStatus) : ComponentReport :=
  let record := p.component? el
  { key := s.keyOf el
    id := record.bind (·.id)
    name := record.bind (·.name)
    state := record.map (·.state)
    outcome := match status with
      | .ended (.ok outcome) => some outcome
      | _ => none
    error := match status with
      | .ended (.error failure) => some failure.message
      | _ => none
    inert := p.document.isInert el }

/-- The line of the journal for an operation on a tree. -/
def journalLine : TreeChange → String
  | .destroyed el => s!"destroy {s.keyOf el}"
  | .initialized el => s!"init {s.keyOf el}"

/-- The report on the page. -/
def report (p : Page) : Report where
  name := s.name
  components := p.tasks.map fun t => s.reportOn p t.element t.status
  initialized := (p.document.refs.filter p.document.isInitialized).map s.keyOf
  journal := p.document.journal.map s.journalLine
  bindings := sortedEntries p.document.bindings
  fetched := p.modules.fetched

/-- Runs the scenario. -/
def run (join : Url.Joiner) : Except Failure Report := do
  let p ← s.page join
  let p ← (s.play (s.start p)).mapError Failure.config
  return s.report p

end Hydration.Scenario
