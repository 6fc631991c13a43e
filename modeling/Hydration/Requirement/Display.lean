import Hydration.Requirement.Token

/-!
# The written form of a requirement

The operands of an expression are written with their operator between them, and
an operand that is itself an expression is put in parentheses.  The root has no
parentheses, so `(a || b) && c` is written as it was read.
-/

namespace Hydration.Requirement

mutual

/-- The written form of a requirement. -/
def chars : Requirement → List Char
  | .leaf c => c.chars
  | .node op operands => operandsChars op operands

/-- Operands, each after the first with the operator in front. -/
def operandsChars (op : Operator) : List Requirement → List Char
  | [] => []
  | [operand] => nestedChars operand
  | operand :: rest => nestedChars operand ++ ' ' :: (op.chars ++ ' ' :: operandsChars op rest)

/-- The written form of an operand. -/
def nestedChars : Requirement → List Char
  | .leaf c => c.chars
  | .node op operands => '(' :: (operandsChars op operands ++ [')'])

end

/-- The written form of a requirement as a text. -/
def text (t : Requirement) : String :=
  String.ofList t.chars

end Hydration.Requirement
