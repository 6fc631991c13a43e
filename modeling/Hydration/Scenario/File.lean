import Hydration.Options.File
import Hydration.Scenario.Basic

/-!
# Scenario files

A file of a scenario is a YAML text with a mapping of fields, of which only `elements` has to be
given.  Fields that are not known are ignored, except that none may be given twice.

**Modules and steps** have no mark that says of which kind they are.  Their scalars are resolved
first, and then they are of the first kind whose fields are all there with values of the
right type.  For a module that is a mapping with a list of `exports`, and otherwise it is plain
data; a step has to be of some kind.  A field may there also be given by its number.
-/

namespace Hydration

open Yaml (Node Value Decode)

/-! ## Kinds told by their fields -/

namespace Yaml.Value

/-- The text of a value. -/
def text? : Value → Option String
  | text s => some s
  | _ => none

/-- The truth value of a value. -/
def flag? : Value → Option Bool
  | bool b => some b
  | _ => none

/-- The natural number of a value. -/
def natural? : Value → Option Nat
  | int n => if 0 ≤ n then some n.toNat else none
  | _ => none

/-- The values of a list. -/
def items? : Value → Option (List Value)
  | list items => some items
  | _ => none

/-- The name of a field given by a key, which is a name or the number of a field; a number
without field gives the empty name. -/
def fieldName? (names : List String) (key : Value) : Option String :=
  match key.text? with
  | some name => some name
  | none => key.natural?.map fun n => names[n]?.getD ""

/-- The entries of a mapping by the names of their fields. -/
def namedFields? (names : List String) : Value → Option (List (String × Value))
  | mapping entries =>
    entries.mapM fun (key, value) => (key.fieldName? names).map fun name => (name, value)
  | _ => none

/-- What `read` makes of the field of a kind that has only one. -/
def only? {γ : Type} (name : String) (read : Value → Option γ) (v : Value) : Option γ := do
  read (← ← givenField? (← v.namedFields? [name]) [name])

end Yaml.Value

namespace ComponentModule

/-- An export, given by its name and its data or by both in a list. -/
def exportOf? (v : Value) : Option (String × Data) := do
  let (name, data) ← match v with
    | .list [name, data] => some (name, data)
    | v => do
      let fields ← v.namedFields? ["name", "data"]
      some (← ← givenField? fields ["name"], ← ← givenField? fields ["data"])
  return (← name.text?, ← data.data?)

/-- A module from a value. -/
def ofValue? (v : Value) : Option ComponentModule :=
  let exports := v.only? "exports" fun list => do (← list.items?).mapM exportOf?
  (exports.map .exports).or (v.data?.map .component)

end ComponentModule

namespace ScenarioStep

/-- A step that changes a media query, which begins to match unless it says otherwise. -/
def mediaOf? (v : Value) : Option ScenarioStep := do
  let fields ← v.namedFields? ["media", "matches"]
  let query ← (← ← givenField? fields ["media"]).text?
  let on ← readField? fields ["matches"] true Value.flag?
  return .media query on

/-- A step from a value. -/
def ofValue? (v : Value) : Option ScenarioStep :=
  [(v.only? "wait_ms" Value.natural?).map wait, (v.only? "visible" Value.text?).map visible,
    (v.only? "hidden" Value.text?).map hidden, mediaOf? v, (v.only? "idle" Value.flag?).map idle,
    (v.only? "event" Value.text?).map event, (v.only? "load" Value.text?).map load].findSome? id

end ScenarioStep

/-! ## Reading -/

namespace Scenario

/-- How deep a module or a step may be nested, which is itself two levels down. -/
def innerNesting : Nat := Yaml.nestingLimit - 2

/-- The platform from a node. -/
def decodePlatform (n : Node) : Decode PlatformSetup := do
  let fields ← Decode.fields ["idle_callback", "media", "visible"] n
  return {
    idleCallback := ← Decode.field fields "idle_callback" true Decode.flag
    media := ← Decode.field fields "media" [] (Decode.list Decode.text)
    visible := ← Decode.field fields "visible" [] (Decode.list Decode.text) }

/-- An element from a node. -/
def decodeElement (n : Node) : Decode ElementSpec := do
  let fields ← Decode.fields ["key", "parent", "id", "data", "load", "src"] n
  return {
    key := ← Decode.required fields "key" Decode.text
    parent := ← Decode.optionalText fields "parent"
    id := ← Decode.optionalText fields "id"
    data := ← Decode.optionalText fields "data"
    load := ← Decode.optionalText fields "load"
    src := ← Decode.optionalText fields "src" }

/-- A module from a node. -/
def decodeModule (n : Node) : Decode ComponentModule := do
  liftM (ComponentModule.ofValue? (← Decode.value innerNesting n))

/-- A step from a node. -/
def decodeStep (n : Node) : Decode ScenarioStep := do
  liftM (ScenarioStep.ofValue? (← Decode.value innerNesting n))

/-- The names of the fields. -/
def fieldNames : List String :=
  ["name", "options", "platform", "modules", "urls", "served", "alias", "elements", "timeline",
    "settle_ms"]

/-- A scenario from a node. -/
def decode (n : Node) : Decode Scenario := do
  let fields ← Decode.fields fieldNames n
  return {
    name := ← Decode.field fields "name" "" Decode.text
    options := ← Decode.field fields "options" {} Options.decode
    platform := ← Decode.field fields "platform" {} decodePlatform
    modules := ← Decode.field fields "modules" [] (Decode.table decodeModule)
    urls := ← Decode.field fields "urls" [] (Decode.table Decode.text)
    served := ← Decode.field fields "served" [] (Decode.table decodeModule)
    pattern := ← Decode.optionalText fields "alias"
    elements := ← Decode.required fields "elements" (Decode.list decodeElement)
    timeline := ← Decode.field fields "timeline" [] (Decode.list decodeStep)
    settleTime := ← Decode.field fields "settle_ms" 250 Decode.natural }

/-- The scenario in the text of a file, which has to have elements. -/
def ofFile (text : String) : Except Failure Scenario :=
  match Decode.run? decode text with
  | none => .error .yaml
  | some s => if s.elements.isEmpty then .error (.config .noElements) else .ok s

end Scenario

end Hydration
