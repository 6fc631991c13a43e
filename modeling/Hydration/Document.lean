import Hydration.Data.Basic
import Hydration.Platform

/-!
# The document

The elements of a page form a tree: an element may have a parent, and elements are
numbered in order of creation.  Each carries two flags.  An **inert** element is
kept back from initialization, and with it all that is below it.  An
**initialized** element has been handed to the framework.

`initTree` initializes the subtree of an element except the branches below inert
elements; `destroyTree` takes initialization back from the whole subtree.  Both are
noted in the journal.  Nothing happens when the root of `initTree` is inert.

**Walking.**  A subtree is walked in document order with a stack of the elements
still to be visited, and an element's ancestors are climbed one by one.  Both loops
count their steps and report when these are used up: `descent` and `ascent` are none
then.  Without circles an element is visited once, so as many steps as there are
elements, and one more for the root, are enough (`enoughSteps`).

But a parent may be any number, so references can go in a circle, and then no number
of steps is enough.  Whoever calls an operation with such a loop never hears from it
again.  Here the operation goes on as if the loop had met nothing, so a statement that
something is completed has to assume that its loops end.
-/

namespace Hydration

/-- An element of a page. -/
structure Element where
  parent : Option ElementRef
  /-- Attributes by name; of several with one name the last counts. -/
  attributes : List (String × String)
  inert : Bool := false
  initialized : Bool := false
deriving DecidableEq, Repr, Inhabited

/-- An operation on a subtree, named by its root. -/
inductive TreeChange where
  | destroyed (root : ElementRef)
  | initialized (root : ElementRef)
deriving DecidableEq, Repr, Inhabited

/-- The elements of a page with what has been done to them. -/
structure Document where
  /-- The elements in order of creation. -/
  elements : List Element := []
  /-- The operations so far, the oldest first. -/
  journal : List TreeChange := []
  /-- The data bound so far, the oldest first. -/
  bindings : List (String × Data) := []
  /-- Whether the framework is cloning a tree. -/
  cloning : Bool := false

namespace Document

variable (d : Document)

/-- The element with a number. -/
def element? (el : ElementRef) : Option Element :=
  d.elements[el.index]?

/-- All elements in document order of creation. -/
def refs : List ElementRef :=
  (List.range d.elements.length).map ElementRef.mk

/-- Adds an element and gives its number. -/
def add (parent : Option ElementRef) (attributes : List (String × String)) :
    ElementRef × Document :=
  (⟨d.elements.length⟩, { d with elements := d.elements ++ [{ parent, attributes }] })

/-- Changes an element; an element that does not exist stays so. -/
def modify (el : ElementRef) (f : Element → Element) : Document :=
  { d with elements := d.elements.modify el.index f }

/-! ## Attributes and flags -/

/-- The value of an attribute. -/
def attribute? (el : ElementRef) (name : String) : Option String :=
  (d.element? el).bind fun e => e.attributes.reverse.lookup name

/-- The author's id of an element; an empty one is none. -/
def elementId? (el : ElementRef) : Option String :=
  (d.attribute? el "id").filter (!·.isEmpty)

/-- Whether an element is inert itself. -/
def isInert (el : ElementRef) : Bool :=
  (d.element? el).any (·.inert)

/-- Whether an element is initialized. -/
def isInitialized (el : ElementRef) : Bool :=
  (d.element? el).any (·.initialized)

/-- Makes an element inert. -/
def markInert (el : ElementRef) : Document :=
  d.modify el fun e => { e with inert := true }

/-- Takes the inert mark from an element. -/
def clearInert (el : ElementRef) : Document :=
  d.modify el fun e => { e with inert := false }

/-! ## The tree -/

/-- The elements without a parent. -/
def roots : List ElementRef :=
  d.refs.filter fun el => (d.element? el).any (·.parent.isNone)

/-- The children of an element in order of creation. -/
def children (el : ElementRef) : List ElementRef :=
  d.refs.filter fun child => (d.element? child).any (·.parent == some el)

/-- The elements reached from a stack of elements in document order, without those
that `prune` cuts off and what is below them; none if `steps` are too few. -/
def walk (prune : Element → Bool) : Nat → List ElementRef → Option (List ElementRef)
  | _, [] => some []
  | 0, _ :: _ => none
  | steps + 1, el :: stack =>
    match d.element? el with
    | none => walk prune steps stack
    | some e =>
      if prune e then walk prune steps stack
      else (walk prune steps (d.children el ++ stack)).map (el :: ·)

/-- Whether an inert element is met when the parents of `from?` are climbed; none
if `steps` are too few. -/
def climb : Nat → Option ElementRef → Option Bool
  | _, none => some false
  | 0, some _ => none
  | steps + 1, some el =>
    match d.element? el with
    | none => some false
    | some e => if e.inert then some true else climb steps e.parent

/-- The steps that suffice for a document without circles. -/
def enoughSteps : Nat :=
  d.elements.length + 1

/-- The loop down from `el`: the elements of its subtree, cut off by `prune`. -/
def descent (prune : Element → Bool) (el : ElementRef) (steps : Nat) :
    Option (List ElementRef) :=
  d.walk prune steps [el]

/-- The loop up from `el`: whether one of its ancestors is inert. -/
def ascent (el : ElementRef) (steps : Nat) : Option Bool :=
  d.climb steps ((d.element? el).bind (·.parent))

/-- The elements of the subtree of `el`, cut off by `prune`; none if the loop never ends. -/
def subtree (prune : Element → Bool) (el : ElementRef) : List ElementRef :=
  (d.descent prune el d.enoughSteps).getD []

/-- Whether some ancestor of an element is inert; none is if the loop never ends. -/
def hasInertAncestor (el : ElementRef) : Bool :=
  (d.ascent el d.enoughSteps).getD false

/-- Sets the initialized flag of some elements. -/
def setInitialized (value : Bool) (els : List ElementRef) : Document :=
  els.foldl (fun d el => d.modify el fun e => { e with initialized := value }) d

/-- Takes back the initialization of a subtree. -/
def destroyTree (el : ElementRef) : Document :=
  let d' := d.setInitialized false (d.subtree (fun _ => false) el)
  { d' with journal := d'.journal ++ [.destroyed el] }

/-- Initializes a subtree except for its inert branches; an inert root is left. -/
def initTree (el : ElementRef) : Document :=
  if d.isInert el then d
  else
    let d' := d.setInitialized true (d.subtree Element.inert el)
    { d' with journal := d'.journal ++ [.initialized el] }

/-! ## Bindings -/

/-- Binds data under a name. -/
def bind (name : String) (data : Data) : Document :=
  { d with bindings := d.bindings ++ [(name, data)] }

/-- The data bound last under a name. -/
def binding? (name : String) : Option Data :=
  d.bindings.reverse.lookup name

end Document

end Hydration
