import Hydration.Text.Blank

/-!
# Requirements

A component names what it waits for by a small expression over **conditions**,
such as `(event(a) || event(b)) && visible`.  A condition is the name of a
strategy with an optional argument, which is kept verbatim.

`Formula` is the shape of such an expression over leaves of any type: a leaf, or
an operator over a list of operands.  A `Requirement` is a formula over
conditions.  Keeping the leaves abstract lets one speak of the same tree with a
different piece of information at each occurrence of a condition.

**Joining.**  Operators have equal precedence and are read from the left, and
`Formula.join` adds one operand on the right: a formula that already has the
same operator takes the operand into its list, any other formula becomes the
first of two operands.
-/

namespace Hydration

/-- How the operands of a formula are combined. -/
inductive Operator where
  /-- Every operand has to hold, written `&&` (or `|`). -/
  | and
  /-- One operand is enough, written `||`. -/
  | or
deriving DecidableEq, Repr, Inhabited

/-- A reference to a named strategy with an optional argument. -/
structure Condition where
  name : String
  /-- The text between the parentheses after the name. -/
  argument : Option String
deriving DecidableEq, Repr, Inhabited

/-- An expression over leaves of type `α`. -/
inductive Formula (α : Type u) where
  | leaf (a : α)
  | node (op : Operator) (operands : List (Formula α))
deriving Repr, Inhabited

/-- What a component waits for. -/
abbrev Requirement := Formula Condition

namespace Formula

variable {α : Type u} {β : Type v}

mutual

/-- The leaves from left to right. -/
def leaves : Formula α → List α
  | leaf a => [a]
  | node _ operands => leavesAll operands

/-- The leaves of all operands, from left to right. -/
def leavesAll : List (Formula α) → List α
  | [] => []
  | operand :: rest => operand.leaves ++ leavesAll rest

end

mutual

/-- The formula with `f` applied to each leaf. -/
def map (f : α → β) : Formula α → Formula β
  | leaf a => leaf (f a)
  | node op operands => node op (mapAll f operands)

/-- Each operand with `f` applied to its leaves. -/
def mapAll (f : α → β) : List (Formula α) → List (Formula β)
  | [] => []
  | operand :: rest => operand.map f :: mapAll f rest

end

mutual

/-- The truth value of a formula when `truth` gives the values of its leaves. -/
def value (truth : α → Bool) : Formula α → Bool
  | leaf a => truth a
  | node .and operands => everyValue truth operands
  | node .or operands => someValue truth operands

/-- Whether every operand is true. -/
def everyValue (truth : α → Bool) : List (Formula α) → Bool
  | [] => true
  | operand :: rest => operand.value truth && everyValue truth rest

/-- Whether some operand is true. -/
def someValue (truth : α → Bool) : List (Formula α) → Bool
  | [] => false
  | operand :: rest => operand.value truth || someValue truth rest

end

mutual

/-- Equality of formulas, decided on the leaves by `==`. -/
def beq [BEq α] : Formula α → Formula α → Bool
  | leaf a, leaf b => a == b
  | node op xs, node op' ys => decide (op = op') && beqAll xs ys
  | _, _ => false

/-- Equality of operand lists. -/
def beqAll [BEq α] : List (Formula α) → List (Formula α) → Bool
  | [], [] => true
  | x :: xs, y :: ys => x.beq y && beqAll xs ys
  | _, _ => false

end

instance [BEq α] : BEq (Formula α) := ⟨beq⟩

/-- `left op right`, read from the left: an operand joining a formula with the
same operator is appended to its operands. -/
def join (op : Operator) (left right : Formula α) : Formula α :=
  match left with
  | node op' operands => if op' = op then node op (operands ++ [right]) else node op [left, right]
  | leaf _ => node op [left, right]

/-- A formula with an operator at its root: a lone leaf is an AND of one. -/
def wrap : Formula α → Formula α
  | leaf a => node .and [leaf a]
  | node op operands => node op operands

theorem leavesAll_append (xs ys : List (Formula α)) :
    leavesAll (xs ++ ys) = leavesAll xs ++ leavesAll ys := by
  induction xs with
  | nil => rfl
  | cons x xs ih => simp [leavesAll, ih]

/-- Joining keeps the leaves in their order. -/
theorem leaves_join (op : Operator) (left right : Formula α) :
    (join op left right).leaves = left.leaves ++ right.leaves := by
  cases left with
  | leaf a => simp [join, leaves, leavesAll]
  | node op' operands =>
    by_cases h : op' = op
    · simp [join, h, leaves, leavesAll, leavesAll_append]
    · simp [join, h, leaves, leavesAll]

theorem leaves_wrap (t : Formula α) : t.wrap.leaves = t.leaves := by
  cases t <;> simp [wrap, leaves, leavesAll]

end Formula

namespace Requirement

/-- The requirement made of one condition. -/
def condition (name : String) (argument : Option String := none) : Requirement :=
  .leaf ⟨name, argument⟩

end Requirement

end Hydration
