import Hydration.Yaml.Cursor
import Hydration.Yaml.Token.Basic

/-!
# Block scalars

A block scalar begins with a header: `|` keeps its lines as they are and `>` folds them,
`-` drops the line breaks at its end and `+` keeps all of them, and a digit says how
far the lines are indented beyond what is around them.  Without a digit the first line that
is not empty sets the indentation.

When lines are folded, a line break between two lines that do not begin with a blank becomes a
space.
-/

namespace Hydration.Yaml

/-- What becomes of the line breaks at the end of a block scalar. -/
inductive Chomping where
  | strip
  | clip
  | keep
deriving DecidableEq, Repr, Inhabited

/-- The header of a block scalar. -/
structure BlockHeader where
  chomping : Chomping := .clip
  /-- The digit of the header. -/
  increment : Option Nat := none
deriving Repr, Inhabited

/-- Reads the sign of a header. -/
def readChomping? (c : Cursor) : Option (Chomping × Cursor) :=
  if c.at? '+' then some (.keep, c.skip)
  else if c.at? '-' then some (.strip, c.skip)
  else none

/-- Reads the digit of a header; none inside if there is none, and none outside if it is
zero. -/
def readIncrement (c : Cursor) : Option (Option Nat × Cursor) :=
  match c.peek with
  | some x =>
    if x == '0' then none
    else if x.isDigit then some (some (x.toNat - 0x30), c.skip)
    else some (none, c)
  | none => some (none, c)

/-- Reads a header, in which sign and digit stand in either order, up to the beginning of
the next line. -/
def readBlockHeader (c : Cursor) : Option (BlockHeader × Cursor) := do
  let (header, c) ← match readChomping? c with
    | some (chomping, c) => do
      let (increment, c) ← readIncrement c
      pure ({ chomping, increment : BlockHeader }, c)
    | none => do
      let (increment, c) ← readIncrement c
      match increment, readChomping? c with
      | some _, some (chomping, c) => pure ({ chomping, increment : BlockHeader }, c)
      | _, _ => pure ({ increment : BlockHeader }, c)
  let c := c.skipBlanks.skipComment
  if !c.atBreakOrEnd then none
  return (header, c.skipBreak)

/-- Skips spaces, but not beyond the column `indent` if it is known. -/
def skipIndentation (indent : Option Nat) (c : Cursor) : Cursor :=
  let spaces := c.rest.takeWhile (· == ' ')
  match indent with
  | none => c.skipMany spaces.length
  | some indent => c.skipMany (min spaces.length (indent - c.column))

/-- Empty lines and the indentation of the line behind them: the text of the lines, and the
deepest column that was seen.  None if a tab stands in the indentation. -/
def blockBreaks (indent : Option Nat) :
    Nat → List Char → Nat → Cursor → Option (List Char × Nat × Cursor)
  | 0, _, _, _ => none
  | fuel + 1, breaks, deepest, c =>
    let c := skipIndentation indent c
    let deepest := max deepest c.column
    if c.at? '\t' && indent.all (c.column < ·) then none
    else if c.atBreak then blockBreaks indent fuel (breaks ++ c.breakText) deepest c.skipBreak
    else some (breaks, deepest, c)

/-- The lines of a block scalar with the column `indent`.  `first` and `more` are the
line breaks behind the text so far, and `blank` says that its last line begins with a
blank. -/
def blockLines (isFolded : Bool) (chomping : Chomping) (indent : Nat) :
    Nat → Bool → List Char → List Char → List Char → Cursor → Option (List Char × Cursor)
  | 0, _, _, _, _, _ => none
  | fuel + 1, blank, first, more, text, c =>
    if c.column == indent && !c.atEnd then do
      let joins := isFolded && first == ['\n'] && !blank && !c.atBlank
      let gap := if joins then folded first more else first ++ more
      let (line, c') := c.takeWhile (!isBreak ·)
      let (breaks, _, c'') ← blockBreaks (some indent) (c'.rest.length + 1) [] 0 c'.skipBreak
      blockLines isFolded chomping indent fuel c.atBlank c'.breakText breaks
        (text ++ gap ++ line) c''
    else
      match chomping with
      | .strip => some (text, c)
      | .clip => some (text ++ first, c)
      | .keep => some (text ++ first ++ more, c)

/-- Reads a block scalar at its `|` or `>`.  `least` is the least column of what belongs to
the block collection around it, and zero if there is none. -/
def readBlockScalar (least : Nat) (isFolded : Bool) (c : Cursor) : Option (Token × Cursor) := do
  let (header, c) ← readBlockHeader c.skip
  -- The digit counts from the column of the collection, or from the left margin.
  let known := header.increment.map (least - 1 + ·)
  let (breaks, deepest, c) ← blockBreaks known (c.rest.length + 1) [] 0 c
  let indent := known.getD (max deepest (max least 1))
  let (text, c) ←
    blockLines isFolded header.chomping indent (c.rest.length + 1) false [] breaks [] c
  return (.scalar (String.ofList text) (if isFolded then .folded else .literal), c)

end Hydration.Yaml
