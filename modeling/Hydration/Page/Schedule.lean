import Hydration.Page.Activation

/-!
# Turns and time

Tasks take turns in the order of the queue.  A task is queued when it is started and
whenever something it waits for may have happened; a task that is queued already is
not queued again.  A turn never queues another task, so once every task of the queue
has had its turn the page has **settled**.

**What queues a task.**  An event queues the tasks that wait for events, in the order
in which they subscribed; a change of the platform those that wait for this kind of
change; the clock those whose timers are due.

**The clock** moves from one due timer to the next, and the page settles at each of
them.  It stands still while tasks have turns.  A wait that ends at some time ends
before the tasks whose timers are due at that very time, and a wait of no length does
not even give a turn to the tasks that are queued.
-/

namespace Hydration.Page

variable (p : Page)

/-! ## Turns -/

/-- Puts a task at the end of the queue unless it is in it. -/
def enqueue (task : Nat) : Page :=
  if task ∈ p.queue then p else { p with queue := p.queue ++ [task] }

/-- Starts a task and gives its number. -/
def startTask (el : ElementRef) (discovers : Bool) : Nat × Page :=
  let number := p.tasks.length
  let started : Page := { p with
    tasks := p.tasks ++ [{ element := el, status := .fresh discovers }] }
  (number, started.enqueue number)

/-- Records how far a task has come. -/
def setStatus (task : Nat) (status : TaskStatus) : Page :=
  { p with tasks := p.tasks.modify task fun t => { t with status } }

/-- Gives a task its turn. -/
def runTask (task : Nat) : Page :=
  match p.tasks[task]? with
  | none => p
  | some t =>
    match t.status with
    | .ended _ => p
    | .dropped => p
    | .fresh discovers =>
      if t.cancelled then p.setStatus task .dropped
      else
        let p := if discovers then (p.discover t.element).2 else p
        let (status, p) := p.beginActivation t.element
        p.setStatus task status
    | .awaiting component name requirement download =>
      if t.cancelled then (p.releaseRequirement requirement).setStatus task .dropped
      else
        let (status, p) := p.resumeActivation component name requirement download
        p.setStatus task status

/-- Gives every queued task its turn. -/
def settle : Page :=
  p.queue.foldl runTask { p with queue := [] }

/-! ## What queues a task -/

/-- Queues the tasks with a wait that has a key, in the order of the keys. -/
def wake (key : Wait → Option Nat) : Page :=
  let keyed := p.tasks.zipIdx.flatMap fun (t, i) => (t.waits.filterMap key).map fun k => (k, i)
  (keyed.mergeSort fun a b => a.1 ≤ b.1).foldl (fun p (_, i) => p.enqueue i) p

/-- Publishes an event and gives the number of its waiters. -/
def publish (e : Event) : Nat × Page :=
  let (count, bus) := p.surroundings.bus.dispatch e
  let p := { p with surroundings := { p.surroundings with bus } }
  (count, p.wake fun
    | .event subscription _ => some subscription
    | _ => none)

/-- The platform with a change. -/
def setPlatform (platform : Platform) : Page :=
  { p with surroundings := { p.surroundings with platform } }

/-- An element enters or leaves the viewport. -/
def setVisible (el : ElementRef) (on : Bool) : Page :=
  (p.setPlatform (p.surroundings.platform.setVisible el on)).wake fun
    | .visible ticket _ => some ticket
    | _ => none

/-- A media query begins or ceases to match. -/
def setMedia (query : String) (on : Bool) : Page :=
  (p.setPlatform (p.surroundings.platform.setMedia query on)).wake fun
    | .media ticket _ => some ticket
    | _ => none

/-- An idle period. -/
def triggerIdle : Page :=
  (p.setPlatform p.surroundings.platform.triggerIdle).wake fun
    | .idle ticket _ => some ticket
    | _ => none

/-- Gives up a task when its turn comes, and says whether its result was still to be
reported. -/
def abort (task : Nat) : Bool × Page :=
  match p.tasks[task]? with
  | none => (false, p)
  | some t =>
    if t.reported then (false, p)
    else
      let marked : Page := { p with
        tasks := p.tasks.modify task fun t => { t with cancelled := true, reported := true } }
      (true, marked.enqueue task)

/-! ## The clock -/

/-- Sets the clock and queues the tasks whose timers are due at that time. -/
def setClock (time : Nat) : Page :=
  let moved : Page := { p with surroundings := { p.surroundings with now := time } }
  moved.wake fun
    | .timer ticket due _ => if due = time then some ticket else none
    | _ => none

/-- The times before `limit` at which some timer is due, in order. -/
def dueBefore (limit : Nat) : List Nat :=
  let times := p.tasks.flatMap fun t => t.waits.filterMap Wait.due?
  (times.filter (· < limit)).mergeSort (· ≤ ·)

/-- The clock moves to `time` and the page settles. -/
def settleAt (time : Nat) : Page :=
  (p.setClock time).settle

/-- Lets some milliseconds pass. -/
def advance (duration : Nat) : Page :=
  if duration = 0 then p
  else
    let limit := p.surroundings.now + duration
    let p := p.settle
    ((p.dueBefore limit).foldl settleAt p).setClock limit

end Hydration.Page
