import Hydration.Page.Schedule

/-!
# Commands

Everything that can be done to a page from outside is a `Command`, so that a course of
events is a list of commands.  `Page.perform` carries one out and gives the `Reply`.

Between two commands the page usually settles.  `Page.step` does both and reports what
is new: the tasks that have ended, and what has been added to the journal, the
bindings and the lists of calls and fetches (`News`).
-/

namespace Hydration

/-- Something done to a page. -/
inductive Command where
  | addElement (parent : Option ElementRef) (attributes : List (String × String))
  | discover (el : ElementRef)
  /-- Starts a task that discovers and activates an element. -/
  | handle (el : ElementRef)
  /-- Starts a task that activates an element. -/
  | activate (el : ElementRef)
  | abort (task : Nat)
  | mergeOptions (update : OptionsUpdate)
  | currentOptions
  | registerModule (name : String) (producer : Producer)
  | setAlias (alternative : ModuleAlias)
  | registerUrl (name : String) (url : String)
  | lookUpModule (name : String)
  | publish (e : Event)
  | countSubscribers
  | lookUpStrategy (name : String)
  | setVisible (el : ElementRef) (on : Bool)
  | setMedia (query : String) (on : Bool)
  | triggerIdle
  | setCloning (on : Bool)
  | initTree (el : ElementRef)
  | destroyTree (el : ElementRef)
  | markInert (el : ElementRef)
  | clearInert (el : ElementRef)
  | wait (duration : Nat)
  | state (el : ElementRef)
  | component (el : ElementRef)
  | components
  | inspect (el : ElementRef)
  | binding (name : String)
  | nothing

/-- What a command answers. -/
inductive Reply where
  | nothing
  | flag (value : Bool)
  | number (value : Nat)
  | options (options : Options)
  | failure (error : Failure)
  | module (registered : Bool) (loaded : Bool) (url : Option String)
  | strategies (names : List String) (found : Option String)
  | state (state : Option ActivationState)
  | component (record : Option Component)
  | components (records : List Component)
  | element (inert : Bool) (initialized : Bool) (inertAncestor : Bool)
  | binding (data : Option Data)

/-- What has been added to a page since an earlier moment. -/
structure News where
  finished : List (Nat × Except Failure Outcome)
  journal : List TreeChange
  bound : List (String × Data)
  fetched : List String
  consulted : List String
  calls : List Call

namespace Page

variable (p : Page)

/-- The page with a changed document. -/
def onDocument (f : Document → Document) : Page :=
  { p with document := f p.document }

/-- Carries out a command. -/
def perform : Command → Reply × Page
  | .addElement parent attributes =>
    let (el, document) := p.document.add parent attributes
    (.number el.index, { p with document })
  | .discover el =>
    let (found, p) := p.discover el
    (.flag found, p)
  | .handle el =>
    let (task, p) := p.startTask el true
    (.number task, p)
  | .activate el =>
    let (task, p) := p.startTask el false
    (.number task, p)
  | .abort task =>
    let (pending, p) := p.abort task
    (.flag pending, p)
  | .mergeOptions update =>
    match p.options.merge update with
    | .ok options => (.options options, { p with options })
    | .error error => (.failure (.config error), p)
  | .currentOptions => (.options p.options, p)
  | .registerModule name producer =>
    (.nothing, { p with modules := p.modules.register name producer })
  | .setAlias alternative =>
    (.nothing, { p with modules := { p.modules with fallback := some alternative } })
  | .registerUrl name url =>
    match p.modules.registerUrl name url p.options with
    | .ok (taken, modules) => (.flag taken, { p with modules })
    | .error error => (.failure (.module error), p)
  | .lookUpModule name =>
    (.module (p.modules.isRegistered name) (p.modules.isLoaded name) (p.modules.url? name), p)
  | .publish e =>
    let (count, p) := p.publish e
    (.number count, p)
  | .countSubscribers =>
    let (count, bus) := p.surroundings.bus.count
    (.number count, { p with surroundings := { p.surroundings with bus } })
  | .lookUpStrategy name =>
    (.strategies p.strategies.names ((p.strategies.get? name).map fun _ => name), p)
  | .setVisible el on => (.nothing, p.setVisible el on)
  | .setMedia query on => (.nothing, p.setMedia query on)
  | .triggerIdle => (.nothing, p.triggerIdle)
  | .setCloning on => (.nothing, p.onDocument fun d => { d with cloning := on })
  | .initTree el => (.nothing, p.onDocument (·.initTree el))
  | .destroyTree el => (.nothing, p.onDocument (·.destroyTree el))
  | .markInert el => (.nothing, p.onDocument (·.markInert el))
  | .clearInert el => (.nothing, p.onDocument (·.clearInert el))
  | .wait duration => (.nothing, p.advance duration)
  | .state el => (.state (p.state? el), p)
  | .component el => (.component (p.component? el), p)
  | .components => (.components p.components, p)
  | .inspect el =>
    (.element (p.document.isInert el) (p.document.isInitialized el)
      (p.document.hasInertAncestor el), p)
  | .binding name => (.binding (p.document.binding? name), p)
  | .nothing => (.nothing, p)

/-- The results that have not been reported, in the order of the tasks. -/
def unreported : List (Nat × Except Failure Outcome) :=
  p.tasks.zipIdx.filterMap fun (t, i) =>
    match t.status with
    | .ended result => if t.reported then none else some (i, result)
    | _ => none

/-- Marks the results there are as reported. -/
def markReported : Page :=
  { p with
    tasks := p.tasks.map fun t =>
      match t.status with
      | .ended _ => { t with reported := true }
      | _ => t }

/-- What has been added since the page was `earlier`. -/
def newsSince (earlier : Page) : News where
  finished := p.unreported
  journal := p.document.journal.drop earlier.document.journal.length
  bound := p.document.bindings.drop earlier.document.bindings.length
  fetched := p.modules.fetched.drop earlier.modules.fetched.length
  consulted := p.modules.consulted.drop earlier.modules.consulted.length
  calls := p.surroundings.calls.drop earlier.surroundings.calls.length

/-- Carries out a command, lets the page settle if asked to, and reports the news. -/
def step (command : Command) (settles : Bool) : Reply × News × Page :=
  let (reply, after) := p.perform command
  let after := if settles then after.settle else after
  (reply, after.newsSince p, after.markReported)

end Page

end Hydration
