import Hydration.Strategy.Table

/-!
# A requirement on the clock

A requirement can be awaited by itself, with nothing happening but the passing of
time.  All timers are set when it is started, so the times at which it has to be
resumed are known from then on: they are taken in order until there is a result or a
limit is passed.
-/

namespace Hydration

variable {α : Type}

namespace Formula

/-- The times up to `limit` at which a timer of the evaluation is due, in order. -/
def dueTimes (e : Evaluation NamedWait) (limit : Nat) : List Nat :=
  ((e.waits.filterMap (·.wait.due?)).filter (· ≤ limit)).mergeSort (· ≤ ·)

/-- Resumes an evaluation at each of the given times until it has a result. -/
def resumeAt (rules : LeafRules α NamedWait Surroundings) :
    List Nat → Evaluation NamedWait × Surroundings → Evaluation NamedWait × Surroundings
  | [], (e, s) => (e, s)
  | time :: rest, (e, s) =>
    if e.result?.isSome then (e, s)
    else resumeAt rules rest (e.resume rules { s with now := time })

/-- Awaits a formula up to `limit` milliseconds.  The clock of the result stands at
the time of the last resumption. -/
def await (t : Formula α) (rules : LeafRules α NamedWait Surroundings) (limit : Nat)
    (s : Surroundings) : Evaluation NamedWait × Surroundings :=
  let (e, s) := t.start rules s
  resumeAt rules (dueTimes e limit) (e, s)

end Formula

/-- Awaits a requirement of a component with the strategies of a page. -/
def Requirement.await (t : Requirement) (table : StrategyTable) (component : ComponentHandle)
    (limit : Nat) (s : Surroundings) : Evaluation NamedWait × Surroundings :=
  Formula.await t (Requirement.rules table component) limit s

end Hydration
