import Hydration.Yaml.Cursor
import Hydration.Yaml.Token.Basic

/-!
# Plain scalars

A scalar without quotes goes on up to what cannot belong to it: a colon before a blank
or a line end, a comment, a document indicator, a line that is not indented far enough, and
inside brackets also a comma or a bracket.  Blanks at the end of a line do not count, and
several lines are folded.
-/

namespace Hydration.Yaml

/-- A character that separates or encloses the parts of a collection in brackets. -/
def isFlowIndicator (c : Char) : Bool :=
  c == ',' || c == '[' || c == ']' || c == '{' || c == '}'

/-- How the characters at a place go on a plain scalar. -/
inductive PlainStop where
  /-- The character belongs to the scalar. -/
  | goesOn
  /-- The scalar has ended. -/
  | ends
  /-- A colon stands where it may not. -/
  | wrong
deriving DecidableEq, Repr

/-- What the place `c`, where no blank or line end is, means for a plain scalar; `flow`
says that it is inside brackets. -/
def Cursor.plainStop (c : Cursor) (flow : Bool) : PlainStop :=
  let colon := c.at? ':'
  if flow && colon && (c.peekAt 1).any (fun x => isFlowIndicator x || x == '?') then .wrong
  else if colon && c.blankOrEndAt 1 then .ends
  else if flow && c.peek.any isFlowIndicator then .ends
  else .goesOn

/-- A stretch of a plain scalar without blanks, and whether the scalar ends with it. -/
def plainStretch (flow : Bool) : Nat → Cursor → Option (List Char × Bool × Cursor)
  | 0, _ => none
  | fuel + 1, c =>
    if c.blankOrEndAt 0 then some ([], c.atEnd, c)
    else
      match c.plainStop flow, c.peek with
      | .wrong, _ => none
      | .goesOn, some x =>
        (plainStretch flow fuel c.skip).map fun (text, ends, c) => (x :: text, ends, c)
      | _, _ => some ([], true, c)

/-- Blanks and line breaks after a stretch. -/
structure PlainGap where
  /-- Whether there is a line break. -/
  broken : Bool := false
  /-- The blanks, if there is none. -/
  blanks : List Char := []
  /-- The text of the first line break. -/
  first : List Char := []
  /-- The text of the other line breaks. -/
  more : List Char := []

/-- What a gap counts for when the scalar goes on behind it. -/
def PlainGap.text (g : PlainGap) : List Char :=
  if g.broken then folded g.first g.more else g.blanks

/-- The gap at a place; none if a tab stands where the line has to be indented by
`indent` columns. -/
def plainGap (indent : Nat) : Nat → PlainGap → Cursor → Option (PlainGap × Cursor)
  | 0, _, _ => none
  | fuel + 1, g, c =>
    match c.peek with
    | none => some (g, c)
    | some x =>
      if isBlank x then
        if g.broken && c.column < indent && x == '\t' then none
        else
          plainGap indent fuel
            (if g.broken then g else { g with blanks := g.blanks ++ [x] }) c.skip
      else if isBreak x then
        plainGap indent fuel
          (if g.broken then { g with more := g.more ++ c.breakText }
            else { broken := true, first := c.breakText }) c.skipBreak
      else some (g, c)

/-- The rest of a plain scalar that has come to a gap, with the text so far. -/
def plainRest (indent : Nat) (flow : Bool) :
    Nat → PlainGap → List Char → Cursor → Option (List Char × Bool × Cursor)
  | 0, _, _, _ => none
  | fuel + 1, g, text, c => do
    if c.atDocumentIndicator || c.at? '#' then return (text, g.broken, c)
    let (stretch, ends, c) ← plainStretch flow (c.rest.length + 1) c
    if stretch.isEmpty then return (text, g.broken, c)
    let text := text ++ g.text ++ stretch
    if ends then return (text, false, c)
    let (gap, c) ← plainGap indent (c.rest.length + 1) {} c
    if !flow && c.column < indent then return (text, gap.broken, c)
    plainRest indent flow fuel gap text c

/-- Reads a plain scalar that has to be indented by `indent` columns where it goes over
to another line.  The flag says that the scalar was left at the beginning of a line. -/
def readPlainScalar (indent : Nat) (flow : Bool) (c : Cursor) :
    Option (Token × Bool × Cursor) := do
  let (text, atLineStart, c) ← plainRest indent flow (c.rest.length + 1) {} [] c
  return (.scalar (String.ofList text) .plain, atLineStart, c)

end Hydration.Yaml
