import Hydration.Yaml.Node
import Hydration.Yaml.Token.Scan

/-!
# Graphs from tokens

`Graph.ofTokens?` puts the tokens of a text together into nodes.  A text holds at most one
document, which may begin with directives and `---` and end with `...`.

What is left out is an empty scalar: a value, a key behind its mark, an item, or the node
behind an anchor or a tag.  Inside brackets a key without value stands for an entry, and in
a sequence an entry with a key stands for a mapping of its own.

**Anchors** are numbered by how many different names there are before them.  A reference
means the number that its name has at that place.  When a name is given again the numbers
of two anchors can agree; then the references mean the node that begins last.
-/

namespace Hydration.Yaml

/-- A node with an anchor. -/
structure AnchoredNode where
  anchor : Nat
  /-- How many nodes with anchors begin before it. -/
  rank : Nat
  node : Node
deriving Repr, Inhabited

/-- The state of composing nodes from tokens. -/
structure Composer where
  /-- The tokens still to be read. -/
  tokens : List Token
  /-- What the tag handles stand for. -/
  handles : List (String × String) := []
  /-- The numbers that the names of anchors have so far. -/
  anchors : List (String × Nat) := []
  /-- The number of nodes with anchors that have begun. -/
  begun : Nat := 0
  /-- The nodes with anchors that are complete. -/
  complete : List AnchoredNode := []

/-- A step of composing nodes, which fails where the tokens are not in order. -/
abbrev Compose := StateT Composer Option

namespace Compose

/-- The next token. -/
def peek : Compose (Option Token) := do
  return (← get).tokens.head?

/-- Leaves the next token behind. -/
def next : Compose Unit :=
  modify fun s => { s with tokens := s.tokens.drop 1 }

/-- Leaves the next token behind if it is `t`, and says whether it is. -/
def accept (t : Token) : Compose Bool := do
  if (← peek) == some t then
    next
    return true
  return false

/-- Leaves the next token behind, which has to be `t`. -/
def expect (t : Token) : Compose Unit := do
  if !(← accept t) then failure

/-- Whether the next token is one of some tokens. -/
def isAt (ts : List Token) : Compose Bool := do
  return (← peek).any ts.contains

/-! ## Properties of a node -/

/-- The anchor at this place. -/
def anchor? : Compose (Option String) := do
  match ← peek with
  | some (.anchor name) =>
    next
    return some name
  | _ => return none

/-- The tag at this place, with its handle replaced by what it stands for. -/
def tag? : Compose (Option String) := do
  match ← peek with
  | some (.tag handle suffix) =>
    next
    if handle.isEmpty then return some suffix
    match (← get).handles.lookup handle with
    | some stem => return some (stem ++ suffix)
    | none => failure
  | _ => return none

/-- The anchor and the tag at this place, in either order. -/
def properties : Compose (Option String × Option String) := do
  match ← anchor? with
  | some anchor => return (some anchor, ← tag?)
  | none =>
    let tag ← tag?
    return (← anchor?, tag)

/-- Numbers the anchor of a node that begins here. -/
def beginAnchor (name : String) : Compose (Nat × Nat) := do
  let s ← get
  let number := s.anchors.length
  let others := s.anchors.filter (·.1 != name)
  set { s with anchors := (name, number) :: others, begun := s.begun + 1 }
  return (number, s.begun)

/-- Records the node of an anchor. -/
def endAnchor (anchor rank : Nat) (node : Node) : Compose Unit :=
  modify fun s => { s with complete := ⟨anchor, rank, node⟩ :: s.complete }

/-- The reference to the anchor with a name. -/
def reference (name : String) : Compose Node := do
  match (← get).anchors.lookup name with
  | some number => return .reference number
  | none => failure

/-! ## Nodes -/

/-- The tag of a scalar; the tag `!` alone says nothing. -/
def scalarTag (tag : Option String) : Option String :=
  tag.filter (· != "!")

mutual

/-- A node.  Block collections are allowed if `block`, and the items of a sequence may begin
without indentation if `unindented`. -/
def node (block unindented : Bool) : Nat → Compose Node
  | 0 => failure
  | fuel + 1 => do
    match ← peek with
    | some (.reference name) =>
      next
      reference name
    | _ =>
      let (anchor, tag) ← properties
      match anchor with
      | none => content block unindented tag tag.isSome fuel
      | some name =>
        let (number, rank) ← beginAnchor name
        let node ← content block unindented tag true fuel
        endAnchor number rank node
        return node

/-- A node behind its properties; only with some of them may it be left out. -/
def content (block unindented : Bool) (tag : Option String) (optional : Bool) :
    Nat → Compose Node
  | 0 => failure
  | fuel + 1 => do
    match ← peek with
    | some (.scalar text style) =>
      next
      return .scalar (scalarTag tag) text style
    | some .flowSequenceStart =>
      next
      return .sequence tag (← flowItems true fuel)
    | some .flowMappingStart =>
      next
      return .mapping tag (← flowEntries true fuel)
    | next? =>
      if unindented && next? == some .blockEntry then
        return .sequence tag (← unindentedItems fuel)
      else if block && next? == some .blockSequenceStart then
        next
        return .sequence tag (← blockItems fuel)
      else if block && next? == some .blockMappingStart then
        next
        return .mapping tag (← blockEntries fuel)
      else if optional then return .scalar tag "" .plain
      else failure

/-- A node, or nothing if one of `ends` comes next. -/
def optionalNode (block unindented : Bool) (ends : List Token) : Nat → Compose Node
  | 0 => failure
  | fuel + 1 => do
    if ← isAt ends then return .empty
    node block unindented fuel

/-- The items of a block sequence up to its end. -/
def blockItems : Nat → Compose (List Node)
  | 0 => failure
  | fuel + 1 => do
    if ← accept .blockEnd then return []
    expect .blockEntry
    let item ← optionalNode true false [.blockEntry, .blockEnd] fuel
    return item :: (← blockItems fuel)

/-- The items of a block sequence that has no indentation of its own. -/
def unindentedItems : Nat → Compose (List Node)
  | 0 => failure
  | fuel + 1 => do
    if !(← accept .blockEntry) then return []
    let item ← optionalNode true false [.blockEntry, .key, .value, .blockEnd] fuel
    return item :: (← unindentedItems fuel)

/-- The entries of a block mapping up to its end. -/
def blockEntries : Nat → Compose (List (Node × Node))
  | 0 => failure
  | fuel + 1 => do
    if ← accept .blockEnd then return []
    expect .key
    let key ← optionalNode true true [.key, .value, .blockEnd] fuel
    let value ← valueOf true [.key, .value, .blockEnd] fuel
    return (key, value) :: (← blockEntries fuel)

/-- The value of a key; it may be left out with its mark or without. -/
def valueOf (block : Bool) (ends : List Token) : Nat → Compose Node
  | 0 => failure
  | fuel + 1 => do
    if ← accept .value then optionalNode block block ends fuel
    else return .empty

/-- The items of a sequence in brackets up to its end. -/
def flowItems (first : Bool) : Nat → Compose (List Node)
  | 0 => failure
  | fuel + 1 => do
    if ← accept .flowSequenceEnd then return []
    if !first then
      expect .flowEntry
      if ← accept .flowSequenceEnd then return []
    let item ← if ← accept .key then flowPair fuel else node false false fuel
    return item :: (← flowItems false fuel)

/-- An item of a sequence that is an entry with a key.  The mark that follows a key that
is left out goes with it. -/
def flowPair : Nat → Compose Node
  | 0 => failure
  | fuel + 1 => do
    let ends : List Token := [.flowEntry, .flowSequenceEnd]
    let key ←
      if ← isAt (.value :: ends) then do
        next
        pure Node.empty
      else node false false fuel
    let value ← valueOf false ends fuel
    return .mapping none [(key, value)]

/-- The entries of a mapping in brackets up to its end. -/
def flowEntries (first : Bool) : Nat → Compose (List (Node × Node))
  | 0 => failure
  | fuel + 1 => do
    if ← accept .flowMappingEnd then return []
    if !first then
      expect .flowEntry
      if ← accept .flowMappingEnd then return []
    let ends : List Token := [.flowEntry, .flowMappingEnd]
    let entry ←
      if ← accept .key then do
        let key ← optionalNode false false (.value :: ends) fuel
        pure (key, ← valueOf false ends fuel)
      else pure (← node false false fuel, Node.empty)
    return entry :: (← flowEntries false fuel)

end

/-! ## Documents -/

/-- The handles that the format itself defines. -/
def standardHandles : List (String × String) :=
  [("!", "!"), ("!!", "tag:yaml.org,2002:")]

/-- The handles that the directives of a document define. -/
def directives : Nat → Bool → List (String × String) → Compose (List (String × String))
  | 0, _, _ => failure
  | fuel + 1, versioned, handles => do
    match ← peek with
    | some (.versionDirective major minor) =>
      if versioned || major != 1 || !(minor == 1 || minor == 2) then failure
      next
      directives fuel true handles
    | some (.tagDirective handle stem) =>
      if (handles.lookup handle).isSome then failure
      next
      directives fuel versioned ((handle, stem) :: handles)
    | _ => return handles

/-- Whether the next token is a directive. -/
def atDirective : Compose Bool := do
  match ← peek with
  | some (.versionDirective _ _) => return true
  | some (.tagDirective _ _) => return true
  | _ => return false

/-- Whether a document ends here. -/
def atDocumentEnd : Compose Bool := do
  return (← peek).isNone || (← isAt [.documentStart, .documentEnd]) || (← atDirective)

/-- The node of a document, which may only be left out behind `---`.  Directives need
that mark. -/
def document (fuel : Nat) : Compose Node := do
  let directed ← atDirective
  let handles ← directives fuel false []
  modify fun s => { s with handles := handles ++ standardHandles }
  if ← accept .documentStart then
    if ← atDocumentEnd then return .empty
    node true false fuel
  else if directed then failure
  else node true false fuel

/-- The node of the only document. -/
def onlyDocument (fuel : Nat) : Compose (Option Node) := do
  if (← peek).isNone then return none
  let root ← document fuel
  modify fun s => { s with tokens := s.tokens.dropWhile (· == .documentEnd) }
  if (← peek).isSome then failure
  return some root

end Compose

/-- The graph that some tokens describe; none if they are not in order. -/
def Graph.ofTokens? (tokens : List Token) : Option Graph := do
  -- Between two tokens at most four readers are entered.
  let fuel := 4 * tokens.length + 4
  let (root, s) ← (Compose.onlyDocument fuel).run { tokens }
  let latestFirst := s.complete.mergeSort fun a b => b.rank ≤ a.rank
  return { root, anchored := latestFirst.map fun a => (a.anchor, a.node) }

/-- The graph of a text; none if the text is not YAML. -/
def Graph.read? (text : String) : Option Graph :=
  (Token.scan text).bind Graph.ofTokens?

end Hydration.Yaml
