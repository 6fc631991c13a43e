import Hydration.Yaml.Token.Basic

/-!
# YAML nodes

A node is a scalar, a sequence, a mapping, or a reference to a node with an anchor.  Scalars are
kept as written; what they mean depends on where they stand.

A `Graph` is the node of a whole text together with the nodes that references stand for.
References may go in a circle, so what follows them has to bound its steps.
-/

namespace Hydration.Yaml

/-- A node of a YAML text. -/
inductive Node where
  /-- The node of an anchor, by the number of the anchor. -/
  | reference (anchor : Nat)
  | scalar (tag : Option String) (text : String) (style : ScalarStyle)
  | sequence (tag : Option String) (items : List Node)
  | mapping (tag : Option String) (entries : List (Node × Node))
deriving Repr, Inhabited

namespace Node

/-- The scalar that stands where nothing is written. -/
def empty : Node := scalar none "" .plain

mutual

/-- How many steps it takes to walk over a node: one for a scalar or a reference, and one at
either end of a collection. -/
def size : Node → Nat
  | reference _ => 1
  | scalar _ _ _ => 1
  | sequence _ items => sizeItems items + 2
  | mapping _ entries => sizeEntries entries + 2

/-- The steps over some items. -/
def sizeItems : List Node → Nat
  | [] => 0
  | item :: rest => item.size + sizeItems rest

/-- The steps over some entries. -/
def sizeEntries : List (Node × Node) → Nat
  | [] => 0
  | (key, value) :: rest => key.size + value.size + sizeEntries rest

end

end Node

/-- What a YAML text holds. -/
structure Graph where
  /-- The node of the text; a text without any node has none. -/
  root : Option Node
  /-- The nodes of the anchors by number. -/
  anchored : List (Nat × Node)
deriving Repr, Inhabited

/-- The node that a node stands for. -/
def Graph.target? (g : Graph) : Node → Option Node
  | .reference anchor => g.anchored.lookup anchor
  | node => some node

end Hydration.Yaml
