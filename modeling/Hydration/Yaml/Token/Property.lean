import Hydration.Yaml.Token.Quoted

/-!
# Anchors, references, tags and directives

An anchor `&name` gives a node a name, and `*name` stands for that node.  A tag has one of
three forms: `!<uri>`, `!suffix`, and `!handle!suffix` with a handle that a directive
or the format itself defines.  In a URI a character may be written by the bytes of its
encoding, each as `%` and two digits.

A directive stands on a line of its own and begins with `%`.  There are two: the version of
the format and the definition of a tag handle.
-/

namespace Hydration.Yaml

/-! ## Anchors -/

/-- A character that may stand right behind the name of an anchor. -/
def isAnchorEnd (c : Char) : Bool :=
  c == '?' || c == ':' || c == ',' || c == ']' || c == '}' || c == '%' || c == '@' || c == '\x60'

/-- Reads the name of an anchor or a reference behind its mark. -/
def readAnchorName (c : Cursor) : Option (String × Cursor) :=
  let (name, c) := c.takeWhile isWordChar
  if name.isEmpty || !(c.blankOrEndAt 0 || c.peek.any isAnchorEnd) then none
  else some (String.ofList name, c)

/-! ## Tags -/

/-- A character of a URI; the flow indicators only count inside `<` and `>`. -/
def isUriChar (enclosed : Bool) (c : Char) : Bool :=
  isWordChar c || c == ';' || c == '/' || c == '?' || c == ':' || c == '@' || c == '&' || c == '='
    || c == '+' || c == '$' || c == '.' || c == '%' || c == '!' || c == '~' || c == '*' || c == '\''
    || c == '(' || c == ')' || (enclosed && (c == ',' || c == '[' || c == ']'))

/-- The byte written as `%` and two digits at a place. -/
def escapedByte? (c : Cursor) : Option (UInt8 × Cursor) :=
  match c.rest with
  | '%' :: x :: y :: _ => do
    let high ← hexDigit? x
    let low ← hexDigit? y
    return (UInt8.ofNat (16 * high + low), c.skipMany 3)
  | _ => none

/-- How many bytes encode a character whose encoding begins with `b`. -/
def encodedLength? (b : UInt8) : Option Nat :=
  if b < 0x80 then some 1
  else if 0xC0 ≤ b ∧ b < 0xE0 then some 2
  else if 0xE0 ≤ b ∧ b < 0xF0 then some 3
  else if 0xF0 ≤ b ∧ b < 0xF8 then some 4
  else none

/-- Further bytes of an encoded character. -/
def continuationBytes : Nat → Cursor → Option (List UInt8 × Cursor)
  | 0, c => some ([], c)
  | n + 1, c => do
    let (b, c) ← escapedByte? c
    if b < 0x80 ∨ 0xC0 ≤ b then none
    let (bytes, c) ← continuationBytes n c
    return (b :: bytes, c)

/-- The character written by escaped bytes at a place.  Bytes of the right shape that
encode nothing count as the replacement character. -/
def escapedChar? (c : Cursor) : Option (Char × Cursor) := do
  let (b, c) ← escapedByte? c
  let length ← encodedLength? b
  let (more, c) ← continuationBytes (length - 1) c
  let decoded := String.fromUTF8? ⟨(b :: more).toArray⟩
  return ((decoded.bind (·.toList.head?)).getD (Char.ofNat 0xFFFD), c)

/-- The characters of a URI at a place. -/
def readUri (enclosed : Bool) : Nat → Cursor → Option (List Char × Cursor)
  | 0, _ => none
  | fuel + 1, c =>
    match c.peek with
    | none => some ([], c)
    | some x =>
      if x == '%' then do
        let (y, c) ← escapedChar? c
        let (uri, c) ← readUri enclosed fuel c
        return (y :: uri, c)
      else if isUriChar enclosed x then do
        let (uri, c) ← readUri enclosed fuel c.skip
        return (x :: uri, c)
      else some ([], c)

/-- A URI that is not empty. -/
def readUri1 (enclosed : Bool) (c : Cursor) : Option (List Char × Cursor) := do
  let (uri, c) ← readUri enclosed (c.rest.length + 1) c
  if uri.isEmpty then none
  return (uri, c)

/-- The text from a `!` up to the last word character, and whether another `!` closes
it, which is then part of it. -/
def readHandle (c : Cursor) : List Char × Bool × Cursor :=
  let (word, c) := c.skip.takeWhile isWordChar
  if c.at? '!' then ('!' :: word ++ ['!'], true, c.skip) else ('!' :: word, false, c)

/-- Reads a tag at its `!`. -/
def readTag (flow : Bool) (c : Cursor) : Option (Token × Cursor) := do
  let (token, c) ←
    if c.peekAt 1 == some '<' then do
      let (uri, c) ← readUri1 true (c.skipMany 2)
      if !c.at? '>' then none
      pure (Token.tag "" (String.ofList uri), c.skip)
    else
      match readHandle c with
      | (handle, true, c) => do
        let (suffix, c) ← readUri1 false c
        pure (Token.tag (String.ofList handle) (String.ofList suffix), c)
      | (word, false, c) => do
        let (more, c) ← readUri false (c.rest.length + 1) c
        let suffix := word.drop 1 ++ more
        pure (if suffix.isEmpty then Token.tag "" "!" else Token.tag "!" (String.ofList suffix), c)
  if c.blankOrEndAt 0 || (flow && c.at? ',') then return (token, c)
  none

/-! ## Directives -/

/-- A number of a version. -/
def readVersionNumber (c : Cursor) : Option (Nat × Cursor) :=
  let (digits, c) := c.takeWhile Char.isDigit
  if digits.isEmpty || 9 < digits.length then none
  else some (digits.foldl (fun n d => 10 * n + (d.toNat - 0x30)) 0, c)

/-- Reads what follows the name of a directive. -/
def readDirectiveValue (name : String) (c : Cursor) : Option (Token × Cursor) :=
  if name == "YAML" then do
    let (major, c) ← readVersionNumber c
    if !c.at? '.' then none
    let (minor, c) ← readVersionNumber c.skip
    return (.versionDirective major minor, c)
  else if name == "TAG" then do
    if !c.at? '!' then none
    let (handle, closed, c) := readHandle c
    if !closed && handle.length ≠ 1 then none
    if !c.atBlank then none
    let (stem, c) ← readUri1 true c.skipBlanks
    if !c.blankOrEndAt 0 then none
    return (.tagDirective (String.ofList handle) (String.ofList stem), c)
  else none

/-- Reads a directive at its `%`, up to the beginning of the next line. -/
def readDirective (c : Cursor) : Option (Token × Cursor) := do
  let (name, c) := c.skip.takeWhile isWordChar
  if name.isEmpty || !c.blankOrEndAt 0 then none
  let (token, c) ← readDirectiveValue (String.ofList name) c.skipBlanks
  let c := c.skipBlanks.skipComment
  if !c.atBreakOrEnd then none
  return (token, c.skipBreak)

end Hydration.Yaml
