import Hydration.Data.Basic
import Hydration.Event.Bus
import Hydration.Platform
import Hydration.Requirement.Evaluation

/-!
# Strategies

A strategy is what a condition of a requirement stands for.  Five are built in:

* `eager` holds at once;
* `event` awaits the next event named by its argument, or without an argument
  the load event for the component;
* `idle` awaits the next idle period, or 200 ms where none are reported;
* `media` holds once the media query in its argument matches, and at once when it
  has no argument;
* `visible` holds once the component is in the viewport.

Any other strategy is given by its `Behaviour`: how long it takes and how it ends.
An empty argument is no argument.

**Surroundings.**  Strategies act on the clock, the event bus and the platform of
a page, and their calls are recorded.  Whoever waits holds a `Wait`, which says
what is awaited and since when.  A timer bears a ticket, so that timers due at the
same time can be taken in the order in which they were set.
-/

namespace Hydration

/-- Why a strategy failed. -/
inductive StrategyError where
  /-- The event channel was closed. -/
  | channelClosed (awaited : String)
  /-- The platform could not serve the request. -/
  | platform (message : String)
deriving DecidableEq, Repr, Inhabited

/-- The text shown for a strategy error. -/
def StrategyError.message : StrategyError → String
  | .channelClosed awaited => s!"event channel closed while waiting for '{awaited}'"
  | .platform message => s!"platform error: {message}"

/-- How a strategy that is not built in behaves. -/
structure Behaviour where
  /-- The milliseconds until it ends; none if it never does. -/
  delay : Option Nat
  outcome : Except StrategyError Unit

/-- The meaning of a condition's name. -/
inductive Strategy where
  | eager
  | event
  | idle
  | media
  | visible
  | custom (behaviour : Behaviour)

/-- The component that a strategy is called for. -/
structure ComponentHandle where
  element : ElementRef
  id : String
deriving DecidableEq, Repr, Inhabited

/-- A recorded call of a strategy that is not built in. -/
structure Call where
  strategy : String
  argument : Option String
  component : ComponentHandle
  time : Nat
deriving DecidableEq, Repr, Inhabited

/-- What strategies see of a page. -/
structure Surroundings where
  /-- The time in milliseconds. -/
  now : Nat := 0
  bus : Bus := {}
  platform : Platform := {}
  /-- The ticket of the next wait. -/
  nextTicket : Nat := 0
  /-- The calls so far, the oldest first. -/
  calls : List Call := []

/-- What a strategy waits for. -/
inductive Wait where
  /-- The clock, and the outcome at that time. -/
  | timer (ticket : Nat) (due : Nat) (outcome : Except StrategyError Unit)
  /-- An event, by the number of the subscription, and what the event is called in errors. -/
  | event (subscription : Nat) (awaited : String)
  /-- An idle period after the first `since` ones. -/
  | idle (ticket : Nat) (since : Nat)
  | media (ticket : Nat) (query : String)
  | visible (ticket : Nat) (element : ElementRef)
  /-- Nothing that can happen. -/
  | never

namespace Strategy

/-- How long `idle` takes where idle periods are not reported. -/
def idleFallback : Nat := 200

/-- The root margin used by `visible` when it has no argument. -/
def defaultRootMargin : String := "0px 0px 0px 0px"

/-- An argument that is not empty. -/
def given (argument : Option String) : Option String :=
  argument.filter (!·.isEmpty)

/-- The media query for an argument. -/
def mediaQuery (argument : String) : String :=
  s!"({argument})"

/-- What the `event` strategy looks for. -/
def eventFilter (component : ComponentHandle) (argument : Option String) : Event.Filter :=
  match given argument with
  | some name => .named name
  | none => .load component.id

/-- What the event that the `event` strategy looks for is called in errors. -/
def eventName (component : ComponentHandle) (argument : Option String) : String :=
  match given argument with
  | some name => name
  | none => s!"load of {component.id}"

/-- Sets a timer. -/
def setTimer (s : Surroundings) (delay : Nat) (outcome : Except StrategyError Unit) :
    Wait × Surroundings :=
  (.timer s.nextTicket (s.now + delay) outcome, { s with nextTicket := s.nextTicket + 1 })

/-- What a leaf named `strategy` reports when it ends with `outcome`. -/
def signalOf (strategy : String) : Except StrategyError Unit → Signal Wait
  | .ok () => .succeeded
  | .error error => .failed (.rejected strategy error.message)

/-- Begins to wait: the strategy registered as `name` is called. -/
def start (strategy : Strategy) (name : String) (component : ComponentHandle)
    (argument : Option String) (s : Surroundings) : Signal Wait × Surroundings :=
  match strategy with
  | eager => (.succeeded, s)
  | event =>
    let (number, bus) := s.bus.subscribe (eventFilter component argument)
    (.waiting (.event number (eventName component argument)), { s with bus })
  | idle =>
    if s.platform.idleCallback then
      (.waiting (.idle s.nextTicket s.platform.idlePeriods),
        { s with nextTicket := s.nextTicket + 1 })
    else
      let (wait, s) := setTimer s idleFallback (.ok ())
      (.waiting wait, s)
  | media =>
    match given argument with
    | none => (.succeeded, s)
    | some argument =>
      let query := mediaQuery argument
      if s.platform.mediaMatches query then (.succeeded, s)
      else (.waiting (.media s.nextTicket query), { s with nextTicket := s.nextTicket + 1 })
  | visible =>
    if s.platform.isVisible component.element then (.succeeded, s)
    else
      (.waiting (.visible s.nextTicket component.element),
        { s with nextTicket := s.nextTicket + 1 })
  | custom behaviour =>
    let s := { s with calls := s.calls ++ [⟨name, argument, component, s.now⟩] }
    match behaviour.delay with
    | none => (.waiting .never, s)
    | some 0 => (signalOf name behaviour.outcome, s)
    | some delay =>
      let (wait, s) := setTimer s delay behaviour.outcome
      (.waiting wait, s)

end Strategy

namespace Wait

/-- Looks whether what is awaited has happened; `name` is the strategy that waits. -/
def resume (name : String) (wait : Wait) (s : Surroundings) : Signal Wait × Surroundings :=
  match wait with
  | timer _ due outcome =>
    if due ≤ s.now then (Strategy.signalOf name outcome, s) else (.waiting wait, s)
  | event number awaited =>
    match s.bus.run number with
    | (.received _, bus) => (.succeeded, { s with bus })
    | (.waiting, bus) => (.waiting wait, { s with bus })
    | (.closed, bus) =>
      (Strategy.signalOf name (.error (.channelClosed awaited)), { s with bus })
  | idle _ since =>
    if since < s.platform.idlePeriods then (.succeeded, s) else (.waiting wait, s)
  | media _ query =>
    if s.platform.mediaMatches query then (.succeeded, s) else (.waiting wait, s)
  | visible _ element =>
    if s.platform.isVisible element then (.succeeded, s) else (.waiting wait, s)
  | never => (.waiting wait, s)

/-- Gives up a wait; only a subscription has to be ended. -/
def release (wait : Wait) (s : Surroundings) : Surroundings :=
  match wait with
  | event number _ => { s with bus := s.bus.drop number }
  | _ => s

/-- The time of a timer. -/
def due? : Wait → Option Nat
  | timer _ due _ => some due
  | _ => none

end Wait

end Hydration
