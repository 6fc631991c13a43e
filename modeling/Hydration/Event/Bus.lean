import Hydration.Event.Basic

/-!
# The event bus

A waiter **subscribes** to the bus when it begins to wait and has an inbox from
then on.  Publishing puts the event into every inbox; when the waiter looks, it
reads its inbox from the front up to the first event that it accepts, and with
that its subscription ends.  Events that nobody waits for are lost.

A subscription counts until its waiter has looked or has been dropped, also when
the awaited event already lies in the inbox.

**Ended subscriptions** stay on the bus for a while: it forgets them when it next
goes through its subscriptions, to publish an event or to count them.  To a waiter
that runs and finds itself forgotten its channel is **closed**, and nothing will
come any more.
-/

namespace Hydration

/-- A waiter of the bus. -/
structure Subscription where
  number : Nat
  /-- The events that the waiter looks for. -/
  accepts : Event → Bool
  /-- Events published since the waiter looked last, the oldest first. -/
  inbox : List Event
  /-- Whether the waiter has received its event or has been dropped. -/
  ended : Bool := false
deriving Inhabited

/-- The subscriptions of a page in the order in which they began. -/
structure Bus where
  subscriptions : List Subscription := []
  /-- The number of the next subscription. -/
  next : Nat := 0
deriving Inhabited

/-- What a waiter that runs is told. -/
inductive Delivery where
  | waiting
  | received (e : Event)
  /-- Nothing can come any more. -/
  | closed
deriving DecidableEq, Repr, Inhabited

namespace Bus

/-! ## The side of the bus -/

/-- Begins a subscription and gives its number. -/
def listen (b : Bus) (accepts : Event → Bool) : Nat × Bus :=
  (b.next,
    { subscriptions := b.subscriptions ++ [{ number := b.next, accepts, inbox := [] }]
      next := b.next + 1 })

/-- Begins a subscription for what a filter accepts. -/
def subscribe (b : Bus) (filter : Event.Filter) : Nat × Bus :=
  b.listen filter.accepts

/-- Forgets the subscriptions that have ended. -/
def prune (b : Bus) : Bus :=
  { b with subscriptions := b.subscriptions.filter (!·.ended) }

/-- Puts an event into every inbox. -/
def publish (b : Bus) (e : Event) : Bus :=
  { b.prune with
    subscriptions := b.prune.subscriptions.map fun s => { s with inbox := s.inbox ++ [e] } }

/-- Publishes an event and says how many waiters it has reached. -/
def dispatch (b : Bus) (e : Event) : Nat × Bus :=
  ((b.publish e).subscriptions.length, b.publish e)

/-- Counts the waiters that are subscribed. -/
def count (b : Bus) : Nat × Bus :=
  (b.prune.subscriptions.length, b.prune)

/-- How many waiters are subscribed. -/
def size (b : Bus) : Nat :=
  b.count.1

/-! ## The side of a waiter -/

/-- Ends a subscription. -/
def drop (b : Bus) (number : Nat) : Bus :=
  { b with
    subscriptions := b.subscriptions.map fun s =>
      if s.number = number then { s with ended := true } else s }

/-- The subscription with a number, unless it has ended. -/
def find? (b : Bus) (number : Nat) : Option Subscription :=
  b.subscriptions.find? fun s => s.number == number && !s.ended

/-- Whether the bus still has the subscription of a waiter. -/
def serves (b : Bus) (number : Nat) : Bool :=
  (b.find? number).isSome

/-- The waiter `number` looks into its inbox.  An accepted event is returned and
ends the subscription; otherwise the inbox has been read and is empty. -/
def look (b : Bus) (number : Nat) : Option Event × Bus :=
  match (b.find? number).bind fun s => s.inbox.find? s.accepts with
  | some e => (some e, b.drop number)
  | none =>
    (none, { b with
      subscriptions := b.subscriptions.map fun s =>
        if s.number = number then { s with inbox := [] } else s })

/-- The waiter `number` runs until it has to wait. -/
def run (b : Bus) (number : Nat) : Delivery × Bus :=
  match b.look number with
  | (some e, b) => (.received e, b)
  | (none, b) => (if b.serves number then .waiting else .closed, b)

end Bus

end Hydration
