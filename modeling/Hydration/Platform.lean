/-!
# The platform of a page

What the page environment shows at a moment: the elements in the viewport, the
media queries that match, and how many idle periods there have been.  Whether the
environment reports idle periods at all is fixed.

A waiter looks at this state whenever it is resumed.  A change that is undone
before it looks is therefore missed, except for idle periods, which are counted.
-/

namespace Hydration

/-- An element of the page, by its number in order of creation. -/
structure ElementRef where
  index : Nat
deriving DecidableEq, Repr, Inhabited

/-- The text shown for an element. -/
def ElementRef.text (el : ElementRef) : String :=
  s!"#{el.index}"

/-- The state of the page environment. -/
structure Platform where
  /-- Whether idle periods are reported. -/
  idleCallback : Bool := true
  /-- Elements in the viewport. -/
  visible : List ElementRef := []
  /-- Media queries that match, verbatim with their parentheses. -/
  media : List String := []
  /-- The number of idle periods so far. -/
  idlePeriods : Nat := 0
deriving DecidableEq, Repr, Inhabited

namespace Platform

/-- The list with `a` in it, or without it. -/
def put {α : Type} [DecidableEq α] (a : α) (on : Bool) (xs : List α) : List α :=
  if on then (if a ∈ xs then xs else a :: xs) else xs.filter (· ≠ a)

/-- An element enters or leaves the viewport. -/
def setVisible (p : Platform) (el : ElementRef) (on : Bool) : Platform :=
  { p with visible := put el on p.visible }

/-- A media query begins or ceases to match. -/
def setMedia (p : Platform) (query : String) (on : Bool) : Platform :=
  { p with media := put query on p.media }

/-- An idle period. -/
def triggerIdle (p : Platform) : Platform :=
  { p with idlePeriods := p.idlePeriods + 1 }

/-- Whether an element is in the viewport. -/
def isVisible (p : Platform) (el : ElementRef) : Bool :=
  decide (el ∈ p.visible)

/-- Whether a media query matches. -/
def mediaMatches (p : Platform) (query : String) : Bool :=
  decide (query ∈ p.media)

theorem mem_put {α : Type} [DecidableEq α] {a b : α} {on : Bool} {xs : List α} :
    b ∈ put a on xs ↔ if b = a then on = true else b ∈ xs := by
  unfold put
  by_cases h : b = a
  · subst h
    by_cases hb : b ∈ xs <;> cases on <;> simp [hb]
  · by_cases ha : a ∈ xs <;> cases on <;> simp [h, ha]

end Platform

end Hydration
