import Hydration.Requirement.Token

/-!
# Reading a requirement

Tokens are read from the left with a stack of **open groups**.  A group remembers
what stands before its next term: nothing, or a left operand and its operator
(`Pending`).  Each term that is read joins what is pending in its group; an
operator makes the result pending again; a closing parenthesis hands it to the
group outside as a term.

**What is forgiven.**  Reading stops where neither an operator nor the end of an
open group follows a term.  Groups that are still open there are closed, and the
tokens that are left over are returned unread.  What is *not* forgiven is a
missing term: it is an error at the position of the token found instead.
-/

namespace Hydration

/-- Why a requirement text cannot be read. -/
inductive ParseError where
  /-- The text is blank or holds no token. -/
  | empty
  /-- The tokens end where a condition or a group is needed. -/
  | unexpectedEnd (position : Nat)
  /-- Another token stands where a condition or a group is needed. -/
  | unexpectedToken (token : String) (position : Nat)
deriving DecidableEq, Repr, Inhabited

/-- The text shown for a parse error. -/
def ParseError.message : ParseError → String
  | .empty => "requirement is empty"
  | .unexpectedEnd position =>
    s!"expected a condition at token {position}, found end of input"
  | .unexpectedToken token position =>
    s!"expected a condition at token {position}, found '{token}'"

namespace Requirement

/-- What stands before the next term of a group. -/
abbrev Pending := Option (Requirement × Operator)

/-- A term joined to what is pending before it. -/
def Pending.complete (p : Pending) (term : Requirement) : Requirement :=
  match p with
  | none => term
  | some (left, op) => Formula.join op left term

/-- The value of the outermost group when every open group is closed at once. -/
def closeAll (value : Requirement) (outer : List Pending) : Requirement :=
  outer.foldl (fun inner p => p.complete inner) value

mutual

/-- Reads on where a term is needed, `position` tokens into the text.  Gives the
requirement and the tokens that are not part of it. -/
def readTerm (pending : Pending) (outer : List Pending) (position : Nat) :
    List Token → Except ParseError (Requirement × List Token)
  | [] => .error (.unexpectedEnd position)
  | .paren .opening :: rest => readTerm none (pending :: outer) (position + 1) rest
  | .condition c :: rest => readOn (pending.complete (.leaf c)) outer (position + 1) rest
  | token :: _ => .error (.unexpectedToken token.text position)

/-- Reads on after a term that gave its group the value `value`. -/
def readOn (value : Requirement) (outer : List Pending) (position : Nat) :
    List Token → Except ParseError (Requirement × List Token)
  | .operator op :: rest => readTerm (some (value, op)) outer (position + 1) rest
  | .paren .closing :: rest =>
    match outer with
    | pending :: outer => readOn (pending.complete value) outer (position + 1) rest
    | [] => .ok (value, .paren .closing :: rest)
  | rest => .ok (closeAll value outer, rest)

end

/-- The requirement at the head of a token list, and the tokens left over. -/
def ofTokens (tokens : List Token) : Except ParseError (Requirement × List Token) :=
  readTerm none [] 0 tokens

/-- Reads a requirement text.  The result always has an operator at its root. -/
def parse (s : String) : Except ParseError Requirement :=
  if Text.isBlankText s then .error .empty
  else
    match Token.scan s with
    | [] => .error .empty
    | tokens => (ofTokens tokens).map (·.1.wrap)

end Requirement

end Hydration
