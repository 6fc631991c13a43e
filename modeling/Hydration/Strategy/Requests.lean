import Hydration.Strategy.Basic

/-!
# What strategies ask of a platform

A platform is asked for things: whether it reports idle periods, whether a query
matches, and to be told of an idle period, a change or an intersection.  On a
platform that answers everything at once, the requests of a built-in strategy and
the time it takes depend only on the platform's two facts.
-/

namespace Hydration

/-- A request to a platform. -/
inductive PlatformRequest where
  | supportsIdleCallback
  | idle
  | mediaMatches (query : String)
  | mediaChange (query : String)
  | intersection (element : ElementRef) (rootMargin : String)
deriving DecidableEq, Repr, Inhabited

/-- The text shown for a request. -/
def PlatformRequest.text : PlatformRequest → String
  | supportsIdleCallback => "supports_idle_callback"
  | idle => "idle"
  | mediaMatches query => s!"matches {query}"
  | mediaChange query => s!"change {query}"
  | intersection element rootMargin => s!"intersect {element.text} {rootMargin}"

namespace Strategy

/-- The requests of a strategy to a platform that answers at once, and the
milliseconds until the strategy holds. -/
def requests (strategy : Strategy) (platform : Platform) (component : ComponentHandle)
    (argument : Option String) : List PlatformRequest × Nat :=
  match strategy with
  | idle =>
    if platform.idleCallback then ([.supportsIdleCallback, .idle], 0)
    else ([.supportsIdleCallback], idleFallback)
  | media =>
    match given argument with
    | none => ([], 0)
    | some argument =>
      let query := mediaQuery argument
      if platform.mediaMatches query then ([.mediaMatches query], 0)
      else ([.mediaMatches query, .mediaChange query], 0)
  | visible => ([.intersection component.element ((given argument).getD defaultRootMargin)], 0)
  | eager => ([], 0)
  | event => ([], 0)
  | custom _ => ([], 0)

end Strategy

end Hydration
