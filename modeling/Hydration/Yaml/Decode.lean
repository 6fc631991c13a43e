import Hydration.Options.Decode
import Hydration.Yaml.Graph
import Hydration.Yaml.Value

/-!
# Reading values from nodes

`Decode` reads values of a known form from the nodes of a graph.  A text may be any scalar,
as written; a truth value or a number has to be a plain one, or a literal one with the tag
for it.  A scalar that is left out counts as an empty collection.

**Circles.**  A reference is replaced by the node that it stands for whenever it is come upon.
Two limits make this end: a value may be nested `nestingLimit` deep, and in
the whole text `followLimit` references may be followed for each step that it takes to walk over
its nodes.  What is ignored is not looked at.
-/

namespace Hydration.Yaml

/-- How deep values may be nested. -/
def nestingLimit : Nat := 128

/-- How many references may be followed for each step over the nodes of a text. -/
def followLimit : Nat := 100

/-- A reader of nodes, with the number of references that it may still follow. -/
abbrev Decode := ReaderT Graph (StateT Nat Option)

namespace Decode

/-- The node that a node stands for. -/
def follow (n : Node) : Decode Node := do
  match n with
  | .reference _ =>
    let remaining ← get
    if remaining = 0 then failure
    set (remaining - 1)
    liftM ((← read).target? n)
  | n => return n

/-! ## Scalars -/

/-- Whether a scalar may be read as a value of the kind that the tag `name` is for. -/
def isBare (name : String) (tag : Option String) (style : ScalarStyle) : Bool :=
  style == .plain || (style == .literal && tag == some (standardTag name))

/-- The text of a scalar. -/
def text? : Node → Option String
  | .scalar _ s _ => some s
  | _ => none

/-- The truth value of a scalar. -/
def flag? : Node → Option Bool
  | .scalar tag s style => if isBare "bool" tag style then truthWord? s else none
  | _ => none

/-- The natural number of a scalar. -/
def natural? : Node → Option Nat
  | .scalar tag s style => if isBare "int" tag style then Yaml.natural? s else none
  | _ => none

/-- Whether a node says that there is no value.  A tag keeps a scalar from saying so, except
for the tag for null, behind which nothing else may be said. -/
def absent? : Node → Option Bool
  | .scalar tag s .plain =>
    match tag with
    | none => some (s.isEmpty || isNullWord s)
    | some tag =>
      if tag == standardTag "null" then (if isNullWord s then some true else none)
      else some false
  | _ => some false

/-- Nodes as the values of fields. -/
def fieldReader : FieldReader Node where
  text? := text?
  flag? := flag?
  absent? := absent?

/-! ## Collections -/

/-- The items of a sequence. -/
def items (n : Node) : Decode (List Node) := do
  match ← follow n with
  | .sequence _ items => return items
  | .scalar _ "" .plain => return []
  | _ => failure

/-- The entries of a mapping whose keys are scalars. -/
def entries (n : Node) : Decode (List (String × Node)) := do
  let entries ← match ← follow n with
    | .mapping _ entries => pure entries
    | .scalar _ "" .plain => pure []
    | _ => failure
  entries.mapM fun (key, value) => do return (← liftM (text? (← follow key)), value)

/-- The fields of a mapping that have one of some names. -/
def fields (names : List String) (n : Node) : Decode (List (String × Node)) := do
  let known := (← entries n).filter (names.contains ·.1)
  known.mapM fun (name, value) => do return (name, ← follow value)

/-- What `read` makes of the field with a name, or the default if it is not given. -/
def field {γ : Type} (fields : List (String × Node)) (name : String) (default : γ)
    (read : Node → Decode γ) : Decode γ := do
  match ← liftM (givenField? fields [name]) with
  | none => return default
  | some value => read value

/-- What `read` makes of the field with a name, which has to be given. -/
def required {γ : Type} (fields : List (String × Node)) (name : String) (read : Node → Decode γ) :
    Decode γ := do
  match ← liftM (givenField? fields [name]) with
  | none => failure
  | some value => read value

/-- The text of the field with a name, which may be missing or say that there is none. -/
def optionalText (fields : List (String × Node)) (name : String) : Decode (Option String) :=
  liftM (readField? fields [name] none fieldReader.optionalText?)

/-- What `read` makes of each item of a sequence. -/
def list {γ : Type} (read : Node → Decode γ) (n : Node) : Decode (List γ) := do
  (← items n).mapM read

/-- What `read` makes of each value of a mapping, sorted by key; of equal keys the last
counts. -/
def table {γ : Type} (read : Node → Decode γ) (n : Node) : Decode (List (String × γ)) := do
  let entries ← (← entries n).mapM fun (key, value) => do return (key, ← read value)
  return sortedEntries entries

/-- A text. -/
def text (n : Node) : Decode String := do
  liftM (text? (← follow n))

/-- A truth value. -/
def flag (n : Node) : Decode Bool := do
  liftM (flag? (← follow n))

/-- A natural number. -/
def natural (n : Node) : Decode Nat := do
  liftM (natural? (← follow n))

/-! ## Values of any form -/

/-- The resolved value of a node that is nested up to `depth` deep. -/
def value (depth : Nat) (n : Node) : Decode Value := do
  match ← follow n with
  | .reference _ => failure
  | .scalar tag s style => liftM (resolve? tag s style)
  | .sequence tag items =>
    match depth with
    | 0 => failure
    | depth + 1 =>
      if isVariantTag tag then failure
      return .list (← items.mapM (value depth))
  | .mapping tag entries =>
    match depth with
    | 0 => failure
    | depth + 1 =>
      if isVariantTag tag then failure
      return .mapping (← entries.mapM fun (key, item) => do
        return (← value depth key, ← value depth item))

/-- What `read` makes of a text; none if the text is not YAML of the expected form. -/
def run? {γ : Type} (read : Node → Decode γ) (text : String) : Option γ := do
  let g ← Graph.read? text
  let root := g.root.getD .empty
  ((read root).run g).run' (followLimit * root.size)

end Decode

end Hydration.Yaml
