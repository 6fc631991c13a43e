import Hydration.Data.Basic
import Hydration.Url.Basic

/-!
# Component modules

A module is what implements a component: either the component's data itself, or a
list of named exports in their order.  `select` picks the data to bind for a
component: the export with its name, else the one called `default`, else the
first.  An empty list of exports has nothing to bind.

A component without a name of its own is given one that begins with
`anonymousStem`; such **anonymous** components have no module.
-/

namespace Hydration

/-- A module of a component. -/
inductive ComponentModule where
  /-- The module is the component's data. -/
  | component (data : Data)
  /-- Named exports in their order. -/
  | exports (entries : List (String × Data))
deriving Repr, Inhabited

/-- Why a module cannot be had. -/
inductive ModuleError where
  | fetch (name : String) (url : String) (message : String)
  | noExport (name : String)
  | invalidUrl (url : String) (cause : UrlError)
deriving DecidableEq, Repr, Inhabited

/-- The text shown for a module error. -/
def ModuleError.message : ModuleError → String
  | fetch name url message => s!"failed to fetch module '{name}' from {url}: {message}"
  | noExport name => s!"module '{name}' has no usable export"
  | invalidUrl url cause => s!"invalid module url '{url}': {cause.message}"

namespace ComponentModule

/-- The data to bind for the component `name`. -/
def select (name : String) : ComponentModule → Option Data
  | component data => some data
  | exports entries =>
    (entries.lookup name).or ((entries.lookup "default").or (entries.head?.map (·.2)))

end ComponentModule

/-- What the names of components without a name of their own begin with. -/
def anonymousStem : String := "_deferred_"

/-- Whether a component's name was made up for it. -/
def isAnonymous (name : String) : Bool :=
  name.startsWith anonymousStem

/-- Why a source has no module to give. -/
inductive Refusal where
  | fetch (message : String)
  | noExport (name : String)
deriving DecidableEq, Repr, Inhabited

/-- The error for the component `name` when the source at `url` refuses. -/
def Refusal.error (name url : String) : Refusal → ModuleError
  | fetch message => .fetch name url message
  | noExport missing => .noExport missing

/-- A source of a module. -/
structure Producer where
  /-- The milliseconds until it answers; none if it never does. -/
  delay : Option Nat
  answer : Except Refusal ComponentModule

/-- The source that has a module at hand. -/
def Producer.holding (m : ComponentModule) : Producer := ⟨some 0, .ok m⟩

end Hydration
