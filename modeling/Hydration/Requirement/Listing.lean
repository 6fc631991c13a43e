import Hydration.Data.Basic
import Hydration.Requirement.Token
import Hydration.Text.Quoted

/-!
# Listing tokens and trees

Tokens are listed with their kind and with their texts quoted, so that blanks in them can be
seen.  The tree of a requirement is shown as data, where each node is a record with one
field that tells its kind.
-/

namespace Hydration

/-! ## Tokens -/

/-- A condition with its fields. -/
def Condition.listing (c : Condition) : String :=
  let argument := match c.argument with
    | some argument => "Some(" ++ Text.quoted argument ++ ")"
    | none => "None"
  "Condition \x7b name: " ++ Text.quoted c.name ++ ", argument: " ++ argument ++ " \x7d"

/-- A token with its kind. -/
def Token.listing : Token → String
  | .paren .opening => "Paren(Open)"
  | .paren .closing => "Paren(Close)"
  | .operator .and => "Operator(And)"
  | .operator .or => "Operator(Or)"
  | .condition c => "Condition(" ++ c.listing ++ ")"

/-! ## Trees -/

/-- The name of an operator. -/
def Operator.name : Operator → String
  | .and => "and"
  | .or => "or"

/-- A condition as data. -/
def Condition.data (c : Condition) : Data :=
  let argument := match c.argument with
    | some argument => Data.string argument
    | none => .null
  .record [("condition", .record [("name", .string c.name), ("argument", argument)])]

namespace Requirement

mutual

/-- A requirement as data, with the fields in the order in which they are shown. -/
def data : Requirement → Data
  | .leaf c => c.data
  | .node op operands =>
    .record [("expression",
      .record [("operator", .string op.name), ("operands", .list (operandsData operands))])]

/-- Operands as data. -/
def operandsData : List Requirement → List Data
  | [] => []
  | operand :: rest => operand.data :: operandsData rest

end

end Requirement

end Hydration
