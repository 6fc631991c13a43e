import Hydration.Strategy.Basic

/-!
# The strategies of a page

A page knows its strategies by name.  Registering a name again replaces the
strategy, so a page may override a built-in one.  A condition whose name is not
registered is never satisfied and never fails.

`Requirement.rules` is the behaviour of conditions on a page with given
strategies: a leaf waits under the name of its strategy, which is the name that
an error is reported with.  In `Formula.rules` the strategies are given leaf by leaf,
so that two occurrences of a condition may differ.
-/

namespace Hydration

/-- Strategies by name, in the order of the names. -/
structure StrategyTable where
  entries : List (String × Strategy) := []

namespace StrategyTable

/-- Registers a strategy in place of one of the same name. -/
def register (t : StrategyTable) (name : String) (strategy : Strategy) : StrategyTable :=
  ⟨insertSorted name strategy t.entries⟩

/-- The strategy of a name. -/
def get? (t : StrategyTable) (name : String) : Option Strategy :=
  t.entries.lookup name

/-- The registered names in order. -/
def names (t : StrategyTable) : List String :=
  t.entries.map (·.1)

/-- The table with the given strategies, later ones replacing earlier ones. -/
def registerAll (t : StrategyTable) (strategies : List (String × Strategy)) : StrategyTable :=
  strategies.foldl (fun t (name, strategy) => t.register name strategy) t

/-- The built-in strategies in the order in which a page creates them. -/
def builtInStrategies : List (String × Strategy) :=
  [("eager", .eager), ("event", .event), ("idle", .idle), ("media", .media), ("visible", .visible)]

/-- The table of the built-in strategies. -/
def builtIn : StrategyTable :=
  registerAll {} builtInStrategies

end StrategyTable

/-- A wait together with the name of the strategy that waits. -/
structure NamedWait where
  strategy : String
  wait : Wait

namespace NamedWait

/-- A report with the waiting strategy's name attached. -/
def attach (strategy : String) : Signal Wait → Signal NamedWait
  | .waiting wait => .waiting ⟨strategy, wait⟩
  | .succeeded => .succeeded
  | .failed error => .failed error

end NamedWait

/-- How leaves behave that stand for conditions, each with a strategy of its own or
with none, for a component. -/
def Formula.rules {α : Type} (condition : α → Condition) (strategy? : α → Option Strategy)
    (component : ComponentHandle) : LeafRules α NamedWait Surroundings where
  start a s :=
    let c := condition a
    match strategy? a with
    | none => (.waiting ⟨c.name, .never⟩, s)
    | some strategy =>
      let (signal, s) := strategy.start c.name component c.argument s
      (NamedWait.attach c.name signal, s)
  resume w s :=
    let (signal, s) := w.wait.resume w.strategy s
    (NamedWait.attach w.strategy signal, s)
  release w s := w.wait.release s

/-- How conditions behave for a component on a page with the given strategies. -/
def Requirement.rules (table : StrategyTable) (component : ComponentHandle) :
    LeafRules Condition NamedWait Surroundings :=
  Formula.rules id (fun c => table.get? c.name) component

end Hydration
